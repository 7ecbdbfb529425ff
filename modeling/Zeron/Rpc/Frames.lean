import Mathlib

namespace Zeron.Rpc

/-! # RPC frames

A server frame is one flat object of optional fields, and which of them it has
decides what it means.  A field is written when it is set, and read as unset
when it is absent or `null`.
-/

/-! ## Errors -/

inductive RpcError
  | unknownMethod (method : String)
  | badParams (detail : String)
  | failed (detail : String)
  | transport (detail : String)
  | closed
deriving DecidableEq, Repr

def RpcError.text : RpcError → String
  | .unknownMethod method => "unknown method: " ++ method
  | .badParams detail => "bad params: " ++ detail
  | .failed detail => detail
  | .transport detail => "transport: " ++ detail
  | .closed => "connection closed"

/-- The rest of a text that begins with `lead`. -/
def afterLead (lead text : String) : Option String :=
  if lead.toList.isPrefixOf text.toList then
    some (String.ofList (text.toList.drop lead.toList.length))
  else none

def wireError (error : String) : RpcError :=
  match afterLead "unknown method: " error with
  | some method => .unknownMethod method
  | none => .failed error

theorem afterLead_append (lead rest : String) : afterLead lead (lead ++ rest) = some rest := by
  simp [afterLead]

theorem eq_append_of_afterLead {lead text rest : String} (found : afterLead lead text = some rest) :
    text = lead ++ rest := by
  obtain ⟨begins, same⟩ := Option.ite_none_right_eq_some.mp found
  rw [← Option.some.inj same]
  obtain ⟨tail, split⟩ := List.isPrefixOf_iff_prefix.mp begins
  apply String.toList_injective
  simp [← split]

/-- Whatever its constructor, an error comes back with its text. -/
theorem text_wireError (error : String) : (wireError error).text = error := by
  unfold wireError
  cases found : afterLead "unknown method: " error with
  | none => rfl
  | some method => exact (eq_append_of_afterLead found).symm

/-- The errors whose constructor the text tells. -/
def RpcError.Carried : RpcError → Prop
  | .unknownMethod _ => True
  | .failed detail => afterLead "unknown method: " detail = none
  | _ => False

theorem wireError_text {error : RpcError} (carried : error.Carried) :
    wireError error.text = error := by
  cases error with
  | unknownMethod method =>
      unfold wireError RpcError.text
      rw [afterLead_append]
  | failed detail =>
      unfold wireError RpcError.text
      rw [show afterLead _ _ = none from carried]
  | badParams detail => exact carried.elim
  | transport detail => exact carried.elim
  | closed => exact carried.elim

/-! ## Server frames -/

/-- The value of one field of a frame object. -/
inductive Field (V : Type)
  | number (value : Nat)
  | text (value : String)
  | flag (value : Bool)
  | value (value : V)
deriving DecidableEq, Repr

structure ServerFrame (V : Type) where
  id : Nat
  ok : Option V := none
  err : Option String := none
  item : Option V := none
  done : Bool := false
deriving DecidableEq, Repr

abbrev Fields (V : Type) := List (String × Field V)

/-- The fields `Serialize` writes. -/
def ServerFrame.encode {V : Type} (frame : ServerFrame V) : Fields V :=
  [("id", .number frame.id)] ++
    (frame.ok.toList.map fun value => ("ok", .value value)) ++
    (frame.err.toList.map fun error => ("err", .text error)) ++
    (frame.item.toList.map fun value => ("item", .value value)) ++
    (if frame.done then [("done", .flag true)] else [])

/-- What the code relies on of `serde_json`: its `null`, the readiness value, and what it reads
back of the text it prints for an object. -/
structure Serde (V : Type) where
  null : V
  streamTrue : V
  reread : Fields V → Option (Fields V)
  present : streamTrue ≠ null
  /-- A flat object of numbers, strings and booleans is read back as it was printed. -/
  flat : ∀ fields : Fields V, (∀ field ∈ fields, ∀ value, field.2 ≠ .value value) →
    reread fields = some fields
  ready : ∀ id, reread [("id", .number id), ("ok", .value streamTrue)] =
    some [("id", .number id), ("ok", .value streamTrue)]

section Reading

variable {V : Type} [DecidableEq V] (serde : Serde V)

/-- `Option<Value>` reads `null` as unset. -/
def optional (null : V) : Option (Field V) → Option V
  | some (.value value) => if value = null then none else some value
  | _ => none

def optionalText : Option (Field V) → Option String
  | some (.text value) => some value
  | _ => none

def ServerFrame.decode (null : V) (fields : Fields V) : Option (ServerFrame V) :=
  match fields.lookup "id" with
  | some (.number id) =>
      some {
        id
        ok := optional null (fields.lookup "ok")
        err := optionalText (fields.lookup "err")
        item := optional null (fields.lookup "item")
        done := fields.lookup "done" = some (.flag true) }
  | _ => none

/-- What the client makes of a frame the server sent. -/
def ServerFrame.arrives (frame : ServerFrame V) : Option (ServerFrame V) :=
  (serde.reread frame.encode).bind (ServerFrame.decode serde.null)

/-- A frame neither of whose values is `null`, and which the text carries. -/
def ServerFrame.Survives (frame : ServerFrame V) : Prop :=
  serde.reread frame.encode = some frame.encode ∧ frame.ok ≠ some serde.null ∧
    frame.item ≠ some serde.null

variable {serde}

theorem decode_encode (null : V) (frame : ServerFrame V) :
    ServerFrame.decode null frame.encode =
      some { frame with
        ok := frame.ok.filter (· ≠ null)
        item := frame.item.filter (· ≠ null) } := by
  obtain ⟨id, ok, err, item, done⟩ := frame
  cases ok <;> cases err <;> cases item <;> cases done <;>
    simp [ServerFrame.encode, ServerFrame.decode, optional, optionalText, List.lookup,
      Option.filter]

theorem arrives_of_survives {frame : ServerFrame V} (survives : frame.Survives serde) :
    frame.arrives serde = some frame := by
  obtain ⟨reread, ok, item⟩ := survives
  have kept : ∀ value : Option V, value ≠ some serde.null →
      value.filter (· ≠ serde.null) = value := by
    intro value present
    cases value with
    | none => rfl
    | some value => simpa using fun null => present (congrArg some null)
  rw [ServerFrame.arrives, reread, Option.bind_some, decode_encode, kept _ ok, kept _ item]

end Reading

end Zeron.Rpc
