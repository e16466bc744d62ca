-- SUMMARY: Types with one text are equal, unless a name in them contains its own delimiter.
import Restorable.Logical.Text
import Restorable.Proofs.Json.Digits

/-!
# Unambiguous types

The text of a type shows where the type ends, whatever follows it in the text of a type around it.
The name of a kind goes on as long as its letters do and tells whether parameters or parts come
next, numbers go on as long as their digits do, and the names of fields and of raw types up to
their delimiter. So a text starts with one type at most, if no name contains its delimiter.
-/
namespace Restorable

/-! ## Delimited names -/

/-- The name of a raw type does not contain the quotes around it. -/
def Scalar.Delimited : Scalar → Prop
  | .raw typeName => '\x27' ∉ typeName.toList
  | _ => True

namespace LogicalType

mutual

/-- No name of a field contains a backquote and no name of a raw type a quote, at any depth. -/
def Delimited : LogicalType → Prop
  | .scalar _ k => k.Delimited
  | .array _ e | .multiset _ e => e.Delimited
  | .map _ k v => k.Delimited ∧ v.Delimited
  | .row _ fields => FieldsDelimited fields

def FieldsDelimited : List (RowField LogicalType) → Prop
  | [] => True
  | ⟨name, t⟩ :: fields => '\x60' ∉ name.toList ∧ t.Delimited ∧ FieldsDelimited fields

end

end LogicalType

variable {cs ds : List Char}

/-- A name ends at the first delimiter. -/
private theorem delimited_unique {delimiter : Char} {m n : String} (hm : delimiter ∉ m.toList)
    (hn : delimiter ∉ n.toList)
    (h : m.toList ++ delimiter :: cs = n.toList ++ delimiter :: ds) : m = n ∧ cs = ds := by
  have hrun : ∀ {s : String}, delimiter ∉ s.toList → ∀ c ∈ s.toList, (c != delimiter) = true := by
    rintro s hs c hc
    exact bne_iff_ne.2 fun heq => hs (heq ▸ hc)
  have hend : ∀ (rest : List Char), ∀ c ∈ (delimiter :: rest).head?, (c != delimiter) = false := by
    rintro rest c ⟨⟩
    exact bne_self_eq_false delimiter
  obtain ⟨hname, hrest⟩ := Json.run_unique (hrun hm) (hrun hn) (hend cs) (hend ds) h
  exact ⟨String.toList_inj.1 hname, (List.cons.inj hrest).2⟩

/-! ## Parameters -/

namespace Scalar

/-- A number in parentheses. -/
def enclosed (n : Nat) : List Char := '(' :: (Nat.toDigits 10 n ++ [')'])

/-- Two numbers in parentheses. -/
def enclosedPair (m n : Nat) : List Char :=
  '(' :: (Nat.toDigits 10 m ++ ',' :: ' ' :: (Nat.toDigits 10 n ++ [')']))

/-- A name in parentheses and quotes. -/
def enclosedName (name : String) : List Char := '(' :: '\x27' :: (name.toList ++ ['\x27', ')'])

private theorem enclosed_unique {m n : Nat} (h : enclosed m ++ cs = enclosed n ++ ds) :
    m = n ∧ cs = ds := by
  simp only [enclosed, List.cons_append, List.append_assoc, List.nil_append] at h
  obtain ⟨hnumber, hrest⟩ :=
    Json.toDigits_unique (by rintro c ⟨⟩; rfl) (by rintro c ⟨⟩; rfl) (List.cons.inj h).2
  exact ⟨hnumber, (List.cons.inj hrest).2⟩

private theorem enclosedPair_unique {k l m n : Nat}
    (h : enclosedPair k l ++ cs = enclosedPair m n ++ ds) : k = m ∧ l = n ∧ cs = ds := by
  simp only [enclosedPair, List.cons_append, List.append_assoc, List.nil_append] at h
  obtain ⟨hfirst, htail⟩ :=
    Json.toDigits_unique (by rintro c ⟨⟩; rfl) (by rintro c ⟨⟩; rfl) (List.cons.inj h).2
  obtain ⟨hsecond, hrest⟩ := Json.toDigits_unique (by rintro c ⟨⟩; rfl) (by rintro c ⟨⟩; rfl)
    (List.cons.inj (List.cons.inj htail).2).2
  exact ⟨hfirst, hsecond, (List.cons.inj hrest).2⟩

private theorem enclosedName_unique {m n : String} (hm : '\x27' ∉ m.toList) (hn : '\x27' ∉ n.toList)
    (h : enclosedName m ++ cs = enclosedName n ++ ds) : m = n ∧ cs = ds := by
  simp only [enclosedName, List.cons_append, List.append_assoc, List.nil_append] at h
  obtain ⟨hname, hrest⟩ := delimited_unique hm hn (List.cons.inj (List.cons.inj h).2).2
  exact ⟨hname, (List.cons.inj hrest).2⟩

/-- What stands behind the name of a kind. -/
def parameters : Scalar → List Char
  | .binary (some length) => enclosed length.toNat
  | .decimal precision scale => enclosedPair precision.toNat scale.toNat
  | .time precision | .timestamp precision _ => enclosed precision.toNat
  | .raw typeName => enclosedName typeName
  | _ => []

theorem toList_text (k : Scalar) : k.text.toList = k.category.toList ++ k.parameters := by
  cases k with
  | binary length => cases length <;> simp [text, category, parameters, enclosed, toString]
  | decimal => simp [text, category, parameters, enclosedPair, toString]
  | time => simp [text, category, parameters, enclosed, toString]
  | timestamp precision zoned => simp [text, parameters, enclosed, toString]
  | raw => simp [text, category, parameters, enclosedName, toString]
  | _ => exact (List.append_nil _).symm

/-- The same kind with zeros and an empty name for its parameters. -/
def bare : Scalar → Scalar
  | .binary length => .binary (length.map fun _ => 0)
  | .decimal .. => .decimal 0 0
  | .time _ => .time 0
  | .timestamp _ zoned => .timestamp 0 zoned
  | .raw _ => .raw ""
  | k => k

/-- Parameters tell kinds that differ in nothing else, and show where they end. -/
private theorem parameters_unique {j k : Scalar} (hj : j.Delimited) (hk : k.Delimited)
    (hbare : j.bare = k.bare) (h : j.parameters ++ cs = k.parameters ++ ds) :
    j = k ∧ cs = ds := by
  cases j with
  | binary length =>
    cases k with
    | binary length' =>
      cases length <;> cases length'
      case none.none => exact ⟨rfl, h⟩
      case some.some =>
        obtain ⟨hlength, hrest⟩ := enclosed_unique h
        exact ⟨by rw [UInt64.toNat_inj.1 hlength], hrest⟩
      all_goals cases hbare
    | _ => cases hbare
  | decimal precision scale =>
    cases k with
    | decimal precision' scale' =>
      obtain ⟨hprecision, hscale, hrest⟩ := enclosedPair_unique h
      exact ⟨by rw [UInt32.toNat_inj.1 hprecision, UInt32.toNat_inj.1 hscale], hrest⟩
    | _ => cases hbare
  | time precision =>
    cases k with
    | time precision' =>
      obtain ⟨hprecision, hrest⟩ := enclosed_unique h
      exact ⟨by rw [UInt32.toNat_inj.1 hprecision], hrest⟩
    | _ => cases hbare
  | timestamp precision zoned =>
    cases k with
    | timestamp precision' zoned' =>
      cases hbare
      obtain ⟨hprecision, hrest⟩ := enclosed_unique h
      exact ⟨by rw [UInt32.toNat_inj.1 hprecision], hrest⟩
    | _ => cases hbare
  | raw typeName =>
    cases k with
    | raw typeName' =>
      obtain ⟨rfl, hrest⟩ := enclosedName_unique hj hk h
      exact ⟨rfl, hrest⟩
    | _ => cases hbare
  | _ => cases k <;> first | exact ⟨hbare, h⟩ | cases hbare

end Scalar

namespace LogicalType

/-! ## Names of kinds -/

/-- The same type without its flag, its parameters and its parts. -/
def bare : LogicalType → LogicalType
  | .scalar _ k => .scalar true k.bare
  | .array .. => .array true null
  | .map .. => .map true null null
  | .multiset .. => .multiset true null
  | .row .. => .row true []

/-- One type of each name. -/
def kinds : List LogicalType :=
  ([.null, .boolean, .integer .tiny, .integer .small, .integer .int, .integer .big, .float, .double,
    .string, .binary (some 0), .binary none, .decimal 0 0, .date, .time 0, .timestamp 0 false,
    .timestamp 0 true, .raw ""] : List Scalar).map (.scalar true) ++
  [.array true null, .map true null null, .multiset true null, .row true []]

/-- The name of its kind finds a type without its flag, its parameters and its parts. -/
private theorem find?_kinds (t : LogicalType) :
    kinds.find? (fun k => k.category == t.category) = some t.bare := by
  cases t with
  | scalar nullable k =>
    cases k with
    | integer width => cases width <;> rfl
    | binary length => cases length <;> rfl
    | timestamp precision zoned => cases zoned <;> rfl
    | _ => rfl
  | _ => rfl

/-- A character of the names of kinds. -/
def isNameChar (c : Char) : Bool := c.isUpper || c == '_'

private theorem isNameChar_category (t : LogicalType) :
    ∀ c ∈ t.category.toList, isNameChar c = true := by
  have hall : kinds.all (fun k => k.category.toList.all isNameChar) = true := by decide
  have hmem := List.all_eq_true.1 hall t.bare (List.mem_of_find?_eq_some (find?_kinds t))
  have hname := List.find?_some (find?_kinds t)
  rw [beq_iff_eq.1 hname] at hmem
  exact List.all_eq_true.1 hmem

/-! ## Where names of kinds end -/

/-- What may follow a type: nothing, a comma or a closing bracket. -/
def Follows (cs : List Char) : Prop := ∀ c ∈ cs.head?, c = ',' ∨ c = '>'

/-- The text does not go on with the name of a kind. -/
def EndsName (cs : List Char) : Prop := ∀ c ∈ cs.head?, isNameChar c = false

private theorem endsName_nullText (nullable : Bool) (hcs : Follows cs) :
    EndsName ((nullText nullable).toList ++ cs) := by
  cases nullable with
  | false =>
    rintro c ⟨⟩
    rfl
  | true =>
    intro c hc
    rcases hcs c hc with rfl | rfl <;> rfl

private theorem endsName_parameters (k : Scalar) (hcs : EndsName cs) :
    EndsName (k.parameters ++ cs) := by
  cases k with
  | binary length =>
    cases length with
    | none => exact hcs
    | some _ =>
      rintro c ⟨⟩
      rfl
  | decimal | time | timestamp | raw =>
    rintro c ⟨⟩
    rfl
  | _ => exact hcs

/-- What stands behind the name of its kind in the text of a type. -/
def afterName : LogicalType → List Char → List Char
  | .scalar n k, cs => k.parameters ++ ((nullText n).toList ++ cs)
  | .array n e, cs | .multiset n e, cs =>
    '<' :: (e.text.toList ++ '>' :: ((nullText n).toList ++ cs))
  | .map n k v, cs => '<' :: (k.text.toList ++ ',' :: ' ' :: (v.text.toList ++
      '>' :: ((nullText n).toList ++ cs)))
  | .row n fields, cs => '<' :: ((fieldsText fields).toList ++ '>' :: ((nullText n).toList ++ cs))

theorem toList_text (t : LogicalType) (cs : List Char) :
    t.text.toList ++ cs = t.category.toList ++ t.afterName cs := by
  cases t with
  | scalar n k =>
    rw [text, String.toList_append, k.toList_text, List.append_assoc, List.append_assoc]
    rfl
  | _ => simp [text, category, afterName]

private theorem endsName_afterName (t : LogicalType) (hcs : Follows cs) :
    EndsName (t.afterName cs) := by
  cases t with
  | scalar n k => exact endsName_parameters k (endsName_nullText n hcs)
  | _ =>
    rintro c ⟨⟩
    rfl

/-- Texts that go on alike start with types that differ in their flags, parameters and parts only,
and go on alike behind the name of the kind. -/
private theorem name_unique {s t : LogicalType} (hcs : Follows cs) (hds : Follows ds)
    (h : s.text.toList ++ cs = t.text.toList ++ ds) :
    s.bare = t.bare ∧ s.afterName cs = t.afterName ds := by
  rw [toList_text, toList_text] at h
  obtain ⟨hname, hafter⟩ := Json.run_unique (isNameChar_category s) (isNameChar_category t)
    (endsName_afterName s hcs) (endsName_afterName t hds) h
  have hfound := find?_kinds s
  rw [String.toList_inj.1 hname, find?_kinds t] at hfound
  exact ⟨(Option.some.inj hfound).symm, hafter⟩

/-! ## Flags and fields -/

private theorem nullText_unique {m n : Bool} (hcs : Follows cs) (hds : Follows ds)
    (h : (nullText m).toList ++ cs = (nullText n).toList ++ ds) : m = n ∧ cs = ds := by
  have hspace : ∀ {rest : List Char}, ¬ Follows (' ' :: rest) := by
    intro rest hrest
    rcases hrest ' ' rfl with hc | hc <;> cases hc
  cases m with
  | false =>
    cases n with
    | false => exact ⟨rfl, List.append_cancel_left h⟩
    | true =>
      subst h
      exact absurd hds hspace
  | true =>
    cases n with
    | false =>
      subst h
      exact absurd hcs hspace
    | true => exact ⟨rfl, h⟩

private theorem follows_close (cs : List Char) : Follows ('>' :: cs) := by
  rintro c ⟨⟩
  exact .inr rfl

private theorem follows_comma (cs : List Char) : Follows (',' :: cs) := by
  rintro c ⟨⟩
  exact .inl rfl

/-- What follows a field: the closing bracket, or a comma and the other fields. -/
def behind : List (RowField LogicalType) → List Char → List Char
  | [], cs => '>' :: cs
  | field :: fields, cs => ',' :: ' ' :: ((fieldsText (field :: fields)).toList ++ '>' :: cs)

private theorem toList_fieldsText (name : String) (t : LogicalType)
    (fields : List (RowField LogicalType)) (cs : List Char) :
    (fieldsText (⟨name, t⟩ :: fields)).toList ++ '>' :: cs =
      '\x60' :: (name.toList ++ '\x60' :: ' ' :: (t.text.toList ++ behind fields cs)) := by
  cases fields with
  | nil => simp [fieldsText, behind]
  | cons field fields => simp [fieldsText, behind]

private theorem follows_behind (fields : List (RowField LogicalType)) (cs : List Char) :
    Follows (behind fields cs) := by
  cases fields with
  | nil => exact follows_close cs
  | cons field fields => exact follows_comma _

/-- What is left of the fields is the same, and ends at the same place, if that holds behind a
comma. -/
private theorem behind_unique {fields fields' : List (RowField LogicalType)}
    (h : behind fields cs = behind fields' ds)
    (hrest : (fieldsText fields).toList ++ '>' :: cs = (fieldsText fields').toList ++ '>' :: ds →
      fields = fields' ∧ cs = ds) : fields = fields' ∧ cs = ds := by
  cases fields with
  | nil =>
    cases fields' with
    | nil => exact ⟨rfl, (List.cons.inj h).2⟩
    | cons field' fields' => cases h
  | cons field fields =>
    cases fields' with
    | nil => cases h
    | cons field' fields' => exact hrest (List.cons.inj (List.cons.inj h).2).2

/-! ## Types -/

mutual

/-- A text starts with one type at most, and shows where it ends. The induction is on the first
type: the name of its kind leaves only types of this kind for the second. -/
theorem text_unique : (s t : LogicalType) → s.Delimited → t.Delimited → {cs ds : List Char} →
    Follows cs → Follows ds → s.text.toList ++ cs = t.text.toList ++ ds → s = t ∧ cs = ds
  | .scalar m j, t, hs, ht, cs, ds, hcs, hds, h => by
    obtain ⟨hbare, hafter⟩ := name_unique hcs hds h
    cases t with
    | scalar n k =>
      obtain ⟨rfl, hflag⟩ :=
        Scalar.parameters_unique hs ht (LogicalType.scalar.inj hbare).2 hafter
      obtain ⟨rfl, hrest⟩ := nullText_unique hcs hds hflag
      exact ⟨rfl, hrest⟩
    | _ => cases hbare
  | .array m e, t, hs, ht, cs, ds, hcs, hds, h => by
    obtain ⟨hbare, hafter⟩ := name_unique hcs hds h
    cases t with
    | array n e' =>
      obtain ⟨rfl, hclose⟩ :=
        text_unique e e' hs ht (follows_close _) (follows_close _) (List.cons.inj hafter).2
      obtain ⟨rfl, hrest⟩ := nullText_unique hcs hds (List.cons.inj hclose).2
      exact ⟨rfl, hrest⟩
    | _ => cases hbare
  | .map m k v, t, hs, ht, cs, ds, hcs, hds, h => by
    obtain ⟨hbare, hafter⟩ := name_unique hcs hds h
    cases t with
    | map n k' v' =>
      obtain ⟨rfl, hcomma⟩ :=
        text_unique k k' hs.1 ht.1 (follows_comma _) (follows_comma _) (List.cons.inj hafter).2
      obtain ⟨rfl, hclose⟩ := text_unique v v' hs.2 ht.2 (follows_close _) (follows_close _)
        (List.cons.inj (List.cons.inj hcomma).2).2
      obtain ⟨rfl, hrest⟩ := nullText_unique hcs hds (List.cons.inj hclose).2
      exact ⟨rfl, hrest⟩
    | _ => cases hbare
  | .multiset m e, t, hs, ht, cs, ds, hcs, hds, h => by
    obtain ⟨hbare, hafter⟩ := name_unique hcs hds h
    cases t with
    | multiset n e' =>
      obtain ⟨rfl, hclose⟩ :=
        text_unique e e' hs ht (follows_close _) (follows_close _) (List.cons.inj hafter).2
      obtain ⟨rfl, hrest⟩ := nullText_unique hcs hds (List.cons.inj hclose).2
      exact ⟨rfl, hrest⟩
    | _ => cases hbare
  | .row m fields, t, hs, ht, cs, ds, hcs, hds, h => by
    obtain ⟨hbare, hafter⟩ := name_unique hcs hds h
    cases t with
    | row n fields' =>
      obtain ⟨rfl, hflag⟩ := fieldsText_unique fields fields' hs ht (List.cons.inj hafter).2
      obtain ⟨rfl, hrest⟩ := nullText_unique hcs hds hflag
      exact ⟨rfl, hrest⟩
    | _ => cases hbare

theorem fieldsText_unique : (fields fields' : List (RowField LogicalType)) →
    FieldsDelimited fields → FieldsDelimited fields' → {cs ds : List Char} →
    (fieldsText fields).toList ++ '>' :: cs = (fieldsText fields').toList ++ '>' :: ds →
    fields = fields' ∧ cs = ds
  | [], [], _, _, _, _, h => ⟨rfl, (List.cons.inj h).2⟩
  | [], ⟨_, _⟩ :: _, _, _, _, _, h => by
    rw [toList_fieldsText] at h
    cases h
  | ⟨_, _⟩ :: _, [], _, _, _, _, h => by
    rw [toList_fieldsText] at h
    cases h
  | ⟨name, t⟩ :: fields, ⟨name', t'⟩ :: fields', hs, ht, cs, ds, h => by
    rw [toList_fieldsText, toList_fieldsText] at h
    obtain ⟨rfl, htype⟩ := delimited_unique hs.1 ht.1 (List.cons.inj h).2
    obtain ⟨rfl, hbehind⟩ := text_unique t t' hs.2.1 ht.2.1 (follows_behind fields cs)
      (follows_behind fields' ds) (List.cons.inj htype).2
    obtain ⟨rfl, hrest⟩ :=
      behind_unique hbehind (fieldsText_unique fields fields' hs.2.2 ht.2.2)
    exact ⟨rfl, hrest⟩

end

/-- Types with the same text are equal, with their flags at every depth. -/
theorem eq_of_same_text {s t : LogicalType} (hs : s.Delimited) (ht : t.Delimited)
    (h : s.text = t.text) : s = t := by
  have hnothing : Follows [] := fun c hc => by cases hc
  exact (text_unique s t hs ht hnothing hnothing
    (congrArg (fun text => text.toList ++ []) h)).1

/-- Delimiters of other names, commas and brackets in names, and types without parts beside
collections of them. -/
theorem eq_of_same_text_order :
    let s : LogicalType := .row false [
      ⟨"by 'key', NOT NULL", .map true (.scalar false .string)
        (.array false (.scalar true (.decimal 10 2)))⟩,
      ⟨"at>", .scalar true (.timestamp 3 true)⟩,
      ⟨"", .scalar false (.raw "a \x60b\x60, ROW<>")⟩,
      ⟨"none", .row true []⟩]
    let t : LogicalType := .row false [
      ⟨"by 'key', NOT NULL", (mapOf string (arrayOf (.scalar true (.decimal 10 2)))).nullable⟩,
      ⟨"at>", (zonedTimestamp 3).nullable⟩, ⟨"", raw "a \x60b\x60, ROW<>"⟩,
      ⟨"none", (LogicalType.row false []).nullable⟩]
    s.Delimited ∧ t.Delimited ∧ s.text =
        "ROW<\x60by 'key', NOT NULL\x60 MAP<STRING NOT NULL, ARRAY<DECIMAL(10, 2)> NOT NULL>, " ++
        "\x60at>\x60 TIMESTAMP_LTZ(3), \x60\x60 RAW('a \x60b\x60, ROW<>') NOT NULL, " ++
        "\x60none\x60 ROW<>> NOT NULL" ∧
      s.text = t.text ∧ s = t := by
  intro s t
  have hs : s.Delimited := by
    simp [s, Delimited, FieldsDelimited, Scalar.Delimited]
  have ht : t.Delimited := hs
  have htext : s.text = t.text := rfl
  exact ⟨hs, ht, by decide +kernel, htext, eq_of_same_text hs ht htext⟩

/-- A backquote in the name of a field can stand for the end of it. -/
example :
    (LogicalType.row true [⟨"a", date⟩, ⟨"b", date⟩]).text =
      (LogicalType.row true [⟨"a\x60 DATE NOT NULL, \x60b", date⟩]).text := rfl

end LogicalType
end Restorable
