import Trellis.Spec

/-!
Reading a specification. The member that is present decides the kind of view: `facet`, else `layer`,
else `mark`. Members are read in the order of their names and the first failure counts, so a fault
of a nested view is reported unless a member before it is at fault.
-/

namespace Trellis

theorem Dict.sizeOf_lookup_lt {name : String} {j : Json} :
    ∀ {ms : List (String × Json)}, Dict.lookup name ms = some j → sizeOf j < sizeOf ms
  | [], h => by simp [Dict.lookup] at h
  | (k, v) :: rest, h => by
    simp only [Dict.lookup] at h
    split at h
    · obtain rfl := Option.some.inj h
      simp only [List.cons.sizeOf_spec, Prod.mk.sizeOf_spec]
      omega
    · have := sizeOf_lookup_lt h
      simp only [List.cons.sizeOf_spec, Prod.mk.sizeOf_spec]
      omega

namespace Spec

def encodingOf (fields : Fields) : Except ReadError (Dict Channel ChannelDef) :=
  fields.withDefault 0 "encoding" .empty (Decode.dict Channel.ofName ChannelDef.decode)

def selectionOf (fields : Fields) : Except ReadError (Dict String SelectionDef) :=
  fields.withDefault 0 "selection" .empty (Decode.dict .ok SelectionDef.decode)

def resolveOf (fields : Fields) : Except ReadError Resolve :=
  fields.withDefault 0 "resolve" .empty Resolve.decode

/-- A unit from its members. -/
def unitOf (fields : Fields) : Except ReadError UnitSpec := do
  let config ← fields.optional 0 "config" Config.decode
  let data ← fields.optional 0 "data" DataDef.decode
  let encoding ← encodingOf fields
  let height ← fields.optional 0 "height" Decode.number
  let mark ← fields.required 0 "mark" MarkDef.decode
  let name ← fields.optional 0 "name" Decode.string
  let selection ← selectionOf fields
  let title ← fields.optional 0 "title" Decode.string
  let width ← fields.optional 0 "width" Decode.number
  return ⟨⟨name, title, data, config⟩, ⟨width, height⟩, mark, encoding, selection⟩

/-- A specification from JSON. -/
def decode (j : Json) : Except ReadError Spec :=
  match j with
  | .obj ms =>
    let fields := Fields.named ms
    match Dict.lookup "facet" ms with
    | some binding => do
      let config ← fields.optional 0 "config" Config.decode
      let data ← fields.optional 0 "data" DataDef.decode
      let facet ← Decode.dict Channel.ofName FieldDef.decode binding
      let name ← fields.optional 0 "name" Decode.string
      let resolve ← resolveOf fields
      -- the nested view is read before the title, so its fault is the one reported
      let child ← match _hc : Dict.lookup "spec" ms with
        | some child => decode child
        | none => Decode.fail "the field spec"
      let title ← fields.optional 0 "title" Decode.string
      return .facet ⟨⟨name, title, data, config⟩, facet, resolve⟩ child
    | none =>
      match _hl : Dict.lookup "layer" ms with
      | some list => do
        let config ← fields.optional 0 "config" Config.decode
        let data ← fields.optional 0 "data" DataDef.decode
        let height ← fields.optional 0 "height" Decode.number
        let children ← match _hi : list with
          | .arr views => views.attach.mapM (fun ⟨view, _⟩ => decode view)
          | _ => Decode.fail "an array"
        let name ← fields.optional 0 "name" Decode.string
        let resolve ← resolveOf fields
        let title ← fields.optional 0 "title" Decode.string
        let width ← fields.optional 0 "width" Decode.number
        return .layer ⟨⟨name, title, data, config⟩, ⟨width, height⟩, resolve⟩ children
      | none =>
        if (Dict.lookup "mark" ms).isSome then do return .unit (← unitOf fields)
        else .error .viewWithoutKind
  | _ => .error .viewNotObject
termination_by sizeOf j
decreasing_by
  · have := Dict.sizeOf_lookup_lt _hc
    simp only [Json.obj.sizeOf_spec]
    omega
  · have h1 := Dict.sizeOf_lookup_lt _hl
    have h2 := List.sizeOf_lt_of_mem ‹view ∈ views›
    simp only [Json.obj.sizeOf_spec, _hi, Json.arr.sizeOf_spec] at *
    omega

end Spec
end Trellis
