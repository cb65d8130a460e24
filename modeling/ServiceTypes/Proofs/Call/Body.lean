import ServiceTypes.Call.Basic
import ServiceTypes.Proofs.Json.Compact

/-!
# `ServiceTypes.Proofs.Call.Body`: the body of a request

The arguments of a call are marshaled on their own, and the body puts their
texts between brackets and commas. Nothing looks into the texts again, so it
is a theorem that a bracket, a comma or a quote inside an argument does not
split the body elsewhere. The theorems:

* `Call.addAll_ok` / `Call.addAll_error`: adding values appends their texts, and
  the first argument that refuses to be marshaled ends the adding.
* `Call.body_eq_compact`: the body of a call with values as its arguments is
  the text of the array of these values.
* `Call.ofText_body`: after each argument the body is read as the array of the
  arguments so far, and the first argument that refuses to be marshaled ends
  the adding with its index.
-/

set_option autoImplicit false

namespace ServiceTypes

open Json (Value)

namespace Call

/-- Adds arguments one by one. -/
def addAll (call : Call) (arguments : List (Except String Value)) : Except CallError Call :=
  arguments.foldlM add call

/-- What is added behind other arguments is added to the call with these. -/
theorem addAll_append (call : Call) (added more : List (Except String Value)) :
    call.addAll (added ++ more) = call.addAll added >>= fun next => next.addAll more :=
  List.foldlM_append

/-- Adding values appends their texts. -/
theorem addAll_ok (call : Call) (values : List Value) :
    call.addAll (values.map .ok)
      = .ok { call with arguments := call.arguments ++ values.map Value.compact } := by
  induction values generalizing call with
  | nil =>
    rw [List.map_nil, List.map_nil, List.append_nil]
    rfl
  | cons value values ih =>
    have hrest := ih { call with arguments := call.arguments ++ [value.compact] }
    rw [List.append_assoc] at hrest
    exact hrest

/-- An argument that refuses to be marshaled fails with the number of arguments before it,
whatever comes behind it. -/
theorem addAll_error (call : Call) (cause : String) (rest : List (Except String Value)) :
    call.addAll (.error cause :: rest) = .error (.marshal call.arguments.length cause) := rfl

/-- The body of a call with values as its arguments is the text of their array. -/
theorem body_eq_compact (url : String) (values : List Value) :
    body ⟨url, values.map Value.compact⟩ = (Value.array values).compact := by
  rw [Value.compact, Json.compactItems_eq_map]
  rfl

/-- A call to which values are added one by one. If their numbers are integers of 64 bits and
none of them opens all the arrays and objects that a reader may open, then after each of them
the body is read as the array of the values so far. An argument that refuses to be marshaled
ends the adding with the number of values before it. -/
theorem ofText_body (url endpoint method : String) (values : List Value) :
    ((∀ v ∈ values, v.Exact ∧ v.depth < Json.nestingLimit) →
      ∀ added, added <+: values → ∃ call : Call,
        (ofMethod url endpoint method).addAll (added.map .ok) = .ok call ∧
        Value.ofText (Text.utf8 call.body) = .ok (.array added)) ∧
    ∀ (cause : String) (rest : List (Except String Value)),
      (ofMethod url endpoint method).addAll (values.map .ok ++ .error cause :: rest)
        = .error (.marshal values.length cause) := by
  constructor
  · intro h added hadded
    -- The array of the arguments takes one level, which is why they must leave one.
    have hexact : (Value.array added).Exact :=
      Json.exactItems_of_forall_mem fun v hv => (h v (hadded.subset hv)).1
    have hdepth : (Value.array added).depth ≤ Json.nestingLimit :=
      Json.depthOfValues_lt (by decide) fun v hv => (h v (hadded.subset hv)).2
    refine ⟨_, addAll_ok _ added, ?_⟩
    rw [ofMethod, List.nil_append, body_eq_compact]
    exact Value.ofText_compact hexact hdepth
  · intro cause rest
    have hvalues : (ofMethod url endpoint method).addAll (values.map .ok)
        = .ok { ofMethod url endpoint method with arguments := values.map Value.compact } :=
      addAll_ok (ofMethod url endpoint method) values
    rw [addAll_append, hvalues]
    refine (addAll_error _ cause rest).trans ?_
    rw [List.length_map]

/-- Arguments with what a splitter of texts would trip over: brackets, commas, quotes and
escapes inside strings and keys, and the outermost integers. -/
def hostileArguments : List Value :=
  [.text "],[\"\\\u0001\n", .number (.integer (-9223372036854775808)),
    .object [("\"a\",", .array [.number (.integer 18446744073709551615), .null, .array []]),
      ("k", .object [])]]

/-- The integers are of 64 bits, and the arguments are not nested too deeply. -/
theorem exact_hostileArguments :
    ∀ v ∈ hostileArguments, v.Exact ∧ v.depth < Json.nestingLimit := by
  decide

/-- The body with these arguments is read as their array. -/
theorem ofText_body_hostile :
    ∃ call : Call,
      (ofMethod "http://localhost" "/service/" "Hello").addAll (hostileArguments.map .ok)
        = .ok call ∧
      Value.ofText (Text.utf8 call.body) = .ok (.array hostileArguments) :=
  (ofText_body "http://localhost" "/service/" "Hello" hostileArguments).1 exact_hostileArguments
    hostileArguments List.prefix_rfl

end Call

end ServiceTypes
