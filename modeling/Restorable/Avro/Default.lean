-- SUMMARY: Turning data into data of a given shape, which a default has to allow.
import Restorable.Avro.Datum

/-!
# Defaults

A default fits a field if its datum can be turned into one of the shape of the field.
In a union the member of the datum's own kind is taken; where there is none, the first
member that the datum can be turned into. A field that a record leaves out takes its
own default, for a union as a datum of the first member.
-/
namespace Restorable
namespace Avro

/-- The first member that takes the datum. What the members up to it spell out is known
while they are tried. -/
def firstTaking (takes : Known → Option String → Shape → Bool) (enclosing : Option String) :
    Known → List Shape → Option Shape
  | _, [] => none
  | known, s :: rest =>
    let known := s.definitions enclosing ++ known
    if takes known (s.space.or enclosing) s then some s
    else firstTaking takes enclosing known rest

/-- The member of a datum's own kind. Named members have no kind of their own. -/
def ownMember? (members : List Shape) (d : Datum) : Option Shape :=
  members.find? fun s => !s.kind.isNamed && s.kind = d.kind

/-- The datum as one of a shape; `fuel` bounds the steps, and `enclosing` is the
namespace for references. -/
def resolve : Nat → Known → Option String → Shape → Datum → Option Datum
  | 0, _, _, _, _ => none
  | fuel + 1, known, enclosing, shape, d =>
    let d := d.unwrapped
    match shape with
    | .plain k => d.convert k
    | .decimal precision carrier => (d.decimal? precision carrier).map .decimal
    | .fixed _ size => (d.fixed? size).map .fixed
    | .enum _ symbols default => (d.enum? symbols default).map .enum
    | .ref n =>
      let n := within n enclosing
      match known.lookup n with
      | some s => resolve fuel known n.space s d
      | none => none
    | .array items =>
      match d with
      | .array ds => do return .array (← ds.mapM (resolve fuel known enclosing items))
      | _ => none
    | .map values =>
      match d with
      | .map es => do
        return .map (← es.mapM fun (k, d) => (k, ·) <$> resolve fuel known enclosing values d)
      | _ => none
    | .union members => do
      let takes known space s := (resolve fuel known space s d).isSome
      let s ← (ownMember? members d).or (firstTaking takes enclosing known members)
      return .union (← resolve fuel known enclosing s d)
    | .record _ fields => do
      let es ←
        match d with
        | .map es | .record es => some es
        | _ => none
      let given (f : Field Shape) : Option Datum :=
        match es.lookup f.name, f.default, f.schema with
        | some d, _, _ => some d
        | none, none, _ => none
        | none, some v, .enum _ symbols default =>
          ((Datum.ofJson v).enum? symbols default).map .enum
        | none, some _, .union [] => none
        | none, some v, .union (first :: _) =>
          if first.kind = .null then some (.union .null)
          else (resolve fuel known enclosing first (.ofJson v)).map .union
        | none, some v, _ => some (.ofJson v)
      return .record (← fields.mapM fun f => do
        return (f.name, ← resolve fuel known enclosing f.schema (← given f)))

/-- Enough steps for values of 127 levels: a level takes at most three of them, and a
default inside a known shape starts anew at most once for each. -/
def resolveFuel (known : Known) : Nat := 400 * (known.length + 2)

/-- Whether a value may be the default of a field; for a union, of any of its members. -/
def fitsField (known : Known) (shape : Shape) (v : Json) : Bool :=
  let fits (s : Shape) := (resolve (resolveFuel known) known s.space s (.ofJson v)).isSome
  match shape with
  | .union members => members.any fits
  | s => fits s

end Avro
end Restorable
