import ServiceTypes.Json.Value
import ServiceTypes.Proofs.Json.Grammar

/-!
# `ServiceTypes.Proofs.Json.Meaning`: the values that nodes mean

A node is as written, a value is interpreted. `Means` relates the two without
reading: a string means the text that it denotes, a numeral of an integer means
the integer, and the members of an object are entered one by one, so that of
equal keys the last one stays. The theorems:

* `Value.ofNode_of_means`: a node is interpreted as the value that it means, if
  all its arrays and objects may be opened.
* `Value.ofText_of_means`: so is a text that writes the node.
-/

set_option autoImplicit false

namespace ServiceTypes.Json

mutual

/-- How many arrays and objects are open at once in a node. -/
def Node.depth : Node → Nat
  | .null => 0
  | .bool _ => 0
  | .number _ => 0
  | .text _ => 0
  | .array items => depthOfItems items + 1
  | .object members => depthOfMembers members + 1
termination_by structural node => node

/-- The greatest depth of the items of an array. -/
def depthOfItems : List Node → Nat
  | [] => 0
  | node :: items => max node.depth (depthOfItems items)
termination_by structural items => items

/-- The depth of the value of a member. -/
def Member.depth : Member → Nat
  | ⟨_, value⟩ => value.depth
termination_by structural member => member

/-- The greatest depth of the members of an object. -/
def depthOfMembers : List Member → Nat
  | [] => 0
  | member :: members => max member.depth (depthOfMembers members)
termination_by structural members => members

end

mutual

/-- A node means a value. The numbers in it are integers. -/
inductive Means : Node → Value → Prop where
  | null : Means .null .null
  | bool (b : Bool) : Means (.bool b) (.bool b)
  | integer {n : Int} : FitsWord n → Means (.number (.ofInt n)) (.number (.integer n))
  | text {raw : RawText} {s : String} : Denotes raw s.toList → Means (.text raw) (.text s)
  | array {items : List Node} {values : List Value} :
    MeansItems items values → Means (.array items) (.array values)
  | object {members : List Member} {pairs : List (String × Value)} :
    MeansMembers members pairs → Means (.object members) (.object (ofEntries pairs))

/-- The items of an array mean values one by one. -/
inductive MeansItems : List Node → List Value → Prop where
  | nil : MeansItems [] []
  | cons {node : Node} {value : Value} {items : List Node} {values : List Value} :
    Means node value → MeansItems items values → MeansItems (node :: items) (value :: values)

/-- The members of an object mean pairs of a text and a value one by one. -/
inductive MeansMembers : List Member → List (String × Value) → Prop where
  | nil : MeansMembers [] []
  | cons {key : RawText} {s : String} {node : Node} {value : Value} {members : List Member}
      {pairs : List (String × Value)} :
    Denotes key s.toList → Means node value → MeansMembers members pairs →
      MeansMembers (⟨key, node⟩ :: members) ((s, value) :: pairs)

end

mutual

/-- A node is interpreted as the value that it means. -/
theorem Value.ofNode_of_means {node : Node} {value : Value} (h : Means node value) {depth : Nat}
    (hdepth : node.depth ≤ depth) : Value.ofNode depth node = .ok value := by
  match h with
  | .null => rw [Value.ofNode]
  | .bool b => rw [Value.ofNode]
  | .integer hfits => rw [Value.ofNode, number?_ofInt hfits]
  | .text hraw =>
    rw [Value.ofNode, text_of_denotes hraw]
    rfl
  | .array hitems =>
    rw [Node.depth] at hdepth
    -- The array itself is open around its items.
    obtain ⟨depth, rfl⟩ := Nat.exists_eq_add_of_le' hdepth
    rw [← Nat.add_assoc, Value.ofNode, mapM_ofNode_of_meansItems hitems (by omega)]
    rfl
  | .object hmembers =>
    rw [Node.depth] at hdepth
    obtain ⟨depth, rfl⟩ := Nat.exists_eq_add_of_le' hdepth
    rw [← Nat.add_assoc, Value.ofNode, mapM_ofNode_of_meansMembers hmembers (by omega)]
    rfl

/-- Items are read as the values that they mean, if none is nested too deeply. -/
theorem mapM_ofNode_of_meansItems {items : List Node} {values : List Value}
    (h : MeansItems items values) {depth : Nat} (hdepth : depthOfItems items ≤ depth) :
    items.mapM (Value.ofNode depth) = .ok values := by
  match h with
  | .nil => rfl
  | .cons hnode hitems =>
    rw [depthOfItems, Nat.max_le] at hdepth
    rw [List.mapM_cons, Value.ofNode_of_means hnode hdepth.1,
      mapM_ofNode_of_meansItems hitems hdepth.2]
    rfl

/-- Members are read as the keys and values that they mean, if none is nested too deeply. -/
theorem mapM_ofNode_of_meansMembers {members : List Member} {pairs : List (String × Value)}
    (h : MeansMembers members pairs) {depth : Nat} (hdepth : depthOfMembers members ≤ depth) :
    (members.mapM fun m => do
      let key ← m.key.text
      let value ← Value.ofNode depth m.value
      return (key, value)) = .ok pairs := by
  match h with
  | .nil => rfl
  | .cons hkey hnode hmembers =>
    rw [depthOfMembers, Member.depth, Nat.max_le] at hdepth
    rw [List.mapM_cons, text_of_denotes hkey, Value.ofNode_of_means hnode hdepth.1,
      mapM_ofNode_of_meansMembers hmembers hdepth.2]
    rfl

end

/-- A text that writes a node is interpreted as the value that the node means. -/
theorem Value.ofText_of_means {node : Node} {value : Value} (h : Means node value)
    (hdepth : node.depth ≤ nestingLimit) {text : List UInt8} (htext : WritesSpaced node text) :
    Value.ofText text = .ok value := by
  unfold Value.ofText
  rw [ofText_of_writesSpaced htext]
  exact Value.ofNode_of_means h hdepth

end ServiceTypes.Json
