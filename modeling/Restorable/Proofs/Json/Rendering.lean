-- SUMMARY: The compact and the pretty text of a value are read back, down to 127 nested containers.
import Restorable.Proofs.Json.Literals

/-!
# Renderings

A rendering of a value is a text of it with blanks between the tokens. Both written forms are
renderings. The reader gives the value of a rendering back when it nests no more containers
than the reader opens, and refuses the text when it nests more.
-/
namespace Restorable
namespace Json

/-! ## Nesting -/

mutual

/-- The greatest number of containers around a part of the value. -/
def depth : Json → Nat
  | .arr xs => itemsDepth xs + 1
  | .obj es => entriesDepth es + 1
  | _ => 0

def itemsDepth : List Json → Nat
  | [] => 0
  | x :: xs => max x.depth (itemsDepth xs)

def entriesDepth : List (String × Json) → Nat
  | [] => 0
  | (_, v) :: es => max v.depth (entriesDepth es)

end

/-! ## Blanks -/

def Blank (b : List Char) : Prop := ∀ c ∈ b, isBlank c = true

theorem blank_nil : Blank [] := fun _ hc => absurd hc List.not_mem_nil

private theorem skipBlanks_append {b : List Char} (hb : Blank b) {c : Char} (hc : isBlank c = false)
    (cs : List Char) : skipBlanks (b ++ c :: cs) = c :: cs := by
  unfold skipBlanks
  rw [List.dropWhile_append_of_pos hb, List.dropWhile_cons_of_neg (by simp [hc])]

/-! ## Renderings -/

mutual

/-- The text is a rendering of the value, without blanks around it. -/
inductive Renders : Json → List Char → Prop
  | null : Renders .null ['n', 'u', 'l', 'l']
  | yes : Renders (.bool true) ['t', 'r', 'u', 'e']
  | no : Renders (.bool false) ['f', 'a', 'l', 's', 'e']
  | num {n} (h : n.ReadsBack) : Renders (.num n) n.text.toList
  | str {s} : Renders (.str s) (quoted s).toList
  | noItems : Renders (.arr []) ['[', ']']
  | arr {xs cs} (h : RendersItems xs cs) : Renders (.arr xs) ('[' :: (cs ++ [']']))
  | noEntries : Renders (.obj []) ['\x7b', '\x7d']
  | obj {es cs} (h : RendersEntries es cs) : Renders (.obj es) ('\x7b' :: (cs ++ ['\x7d']))

/-- Items between commas, with blanks around each. -/
inductive RendersItems : List Json → List Char → Prop
  | last {b x cs b'} (hb : Blank b) (h : Renders x cs) (hb' : Blank b') :
      RendersItems [x] (b ++ (cs ++ b'))
  | cons {b x cs xs ds} (hb : Blank b) (h : Renders x cs) (hrest : RendersItems xs ds) :
      RendersItems (x :: xs) (b ++ (cs ++ ',' :: ds))

/-- Entries between commas, with blanks before each key and around each value. -/
inductive RendersEntries : List (String × Json) → List Char → Prop
  | last {b k b₁ v cs b'} (hb : Blank b) (hb₁ : Blank b₁) (h : Renders v cs) (hb' : Blank b') :
      RendersEntries [(k, v)] (b ++ ((quoted k).toList ++ ':' :: (b₁ ++ (cs ++ b'))))
  | cons {b k b₁ v cs es ds} (hb : Blank b) (hb₁ : Blank b₁) (h : Renders v cs)
      (hrest : RendersEntries es ds) :
      RendersEntries ((k, v) :: es)
        (b ++ ((quoted k).toList ++ ':' :: (b₁ ++ (cs ++ ',' :: ds))))

end

private theorem isBlank_of_isDigit {c : Char} (h : c.isDigit = true) : isBlank c = false := by
  simp only [isBlank, Bool.or_eq_false_iff, decide_eq_false_iff_not]
  refine ⟨⟨⟨?_, ?_⟩, ?_⟩, ?_⟩ <;>
    · rintro rfl
      exact absurd h (by decide)

/-- A rendering starts with the first character of a token, which closes no array. -/
private theorem Renders.exists_head {v : Json} {cs : List Char} (h : Renders v cs) :
    ∃ c ds, cs = c :: ds ∧ isBlank c = false ∧ c ≠ ']' := by
  cases h with
  | num h =>
    obtain ⟨c, ds, hcs, hc⟩ := h.starts
    refine ⟨c, ds, hcs, ?_⟩
    rcases hc with rfl | hc
    · decide
    · refine ⟨isBlank_of_isDigit hc, ?_⟩
      rintro rfl
      exact absurd hc (by decide)
  | str => exact ⟨_, _, toList_quoted _, by decide⟩
  | _ => exact ⟨_, _, rfl, by decide⟩

/-! ## Reading renderings -/

/-- Blanks before a value are passed over. -/
private theorem value_skip {b : List Char} (hb : Blank b) {v : Json} {cs : List Char}
    (h : Renders v cs) (fuel depth : Nat) (rest : List Char) :
    value fuel depth (b ++ (cs ++ rest)) = value fuel depth (cs ++ rest) := by
  obtain ⟨c, ds, rfl, hc, -⟩ := h.exists_head
  cases fuel with
  | zero => rfl
  | succ fuel =>
    have hskip : skipBlanks (b ++ (c :: ds ++ rest)) = skipBlanks (c :: ds ++ rest) := by
      rw [List.cons_append, skipBlanks_append hb hc]
      exact (skipBlanks_append blank_nil hc _).symm
    unfold value
    rw [hskip]

/-- A text that starts like a number is read as one. -/
private theorem value_number {cs : List Char} (h : StartsNumber cs) (fuel depth : Nat)
    (rest : List Char) :
    value (fuel + 1) depth (cs ++ rest) = (do
      let (t, rest) ← numberText (cs ++ rest)
      some (.num (← t.number?), rest)) := by
  obtain ⟨c, ds, rfl, hc⟩ := h
  have hblank : isBlank c = false := by
    rcases hc with rfl | hc
    · rfl
    · exact isBlank_of_isDigit hc
  have hnot : ∀ d, d.isDigit = false → d ≠ '-' → c ≠ d := by
    rintro d hd hminus rfl
    rcases hc with rfl | hc
    · exact hminus rfl
    · rw [hc] at hd
      cases hd
  have hskip : skipBlanks (c :: ds ++ rest) = c :: (ds ++ rest) :=
    skipBlanks_append blank_nil hblank _
  unfold value
  rw [hskip]
  split
  case h_8 => rw [List.cons_append]
  case h_1 heq => cases heq
  all_goals
    rename_i heq
    exact absurd (List.cons.inj heq).1 (hnot _ (by decide) (by decide))

/-- What follows a value, blanks and a delimiter, does not go on with a number. -/
theorem stops_delimiter {b : List Char} (hb : Blank b) {c : Char} (hc : c ∈ [',', ']', '\x7d'])
    (rest : List Char) : Stops (b ++ c :: rest) := by
  cases b with
  | nil =>
    rintro d ⟨⟩
    simp only [List.mem_cons, List.not_mem_nil, or_false] at hc
    rcases hc with rfl | rfl | rfl <;> decide
  | cons d b =>
    rintro e ⟨⟩
    have hblank := hb d List.mem_cons_self
    simp only [isBlank, Bool.or_eq_true, decide_eq_true_eq] at hblank
    rcases hblank with ((rfl | rfl) | rfl) | rfl <;> decide

private theorem Renders.skip {b : List Char} (hb : Blank b) {v : Json} {cs : List Char}
    (h : Renders v cs) (rest : List Char) :
    ∃ c ds, skipBlanks (b ++ (cs ++ rest)) = c :: ds ∧ c ≠ ']' := by
  obtain ⟨c, ds, rfl, hc, hne⟩ := h.exists_head
  exact ⟨c, ds ++ rest, skipBlanks_append hb hc _, hne⟩

/-- The items of an array do not start with its closing bracket. -/
private theorem RendersItems.skip {xs : List Json} {cs : List Char} (h : RendersItems xs cs)
    (rest : List Char) : ∃ c ds, skipBlanks (cs ++ rest) = c :: ds ∧ c ≠ ']' := by
  cases h with
  | last hb h _ =>
    simp only [List.append_assoc]
    exact h.skip hb _
  | cons hb h _ =>
    simp only [List.append_assoc]
    exact h.skip hb _

private theorem RendersEntries.skip {es : List (String × Json)} {cs : List Char}
    (h : RendersEntries es cs) (rest : List Char) : ∃ ds, skipBlanks (cs ++ rest) = '"' :: ds := by
  cases h with
  | last hb _ _ _ =>
    simp only [List.append_assoc, toList_quoted, List.cons_append]
    exact ⟨_, skipBlanks_append hb rfl _⟩
  | cons hb _ _ _ =>
    simp only [List.append_assoc, toList_quoted, List.cons_append]
    exact ⟨_, skipBlanks_append hb rfl _⟩

/-- The reader finds the opening quote of a string and reads up to the closing one. -/
theorem stringBody_quoted (s : String) (rest : List Char) :
    ∃ ds, (quoted s).toList ++ rest = '"' :: ds ∧
      stringBody (ds.length + 1) ds = some (s.toList, rest) := by
  refine ⟨s.toList.flatMap escaped ++ '"' :: rest, ?_, ?_⟩
  · simp
  · apply stringBody_escaped
    have hlength := length_le_flatMap_escaped s.toList
    rw [List.length_append]
    omega

private theorem value_string (s : String) (fuel depth : Nat) (rest : List Char) :
    value (fuel + 1) depth ((quoted s).toList ++ rest) = some (.str s, rest) := by
  obtain ⟨ds, hds, hbody⟩ := stringBody_quoted s rest
  have hquote : skipBlanks ('"' :: ds) = '"' :: ds := skipBlanks_append blank_nil rfl ds
  simp only [hds, value, hquote, hbody, Option.bind_eq_bind, Option.bind_some,
    String.ofList_toList]

/-- An opening bracket, without its closing one behind it, is followed by items. -/
private theorem value_array {cs : List Char} (h : ∃ c ds, skipBlanks cs = c :: ds ∧ c ≠ ']')
    (fuel depth : Nat) :
    value (fuel + 1) (depth + 1) ('[' :: cs) =
      (items fuel depth cs).map fun read => (.arr read.1, read.2) := by
  obtain ⟨c, ds, hskip, hne⟩ := h
  have hbracket : skipBlanks ('[' :: cs) = '[' :: cs := skipBlanks_append blank_nil rfl cs
  simp only [value, hbracket, hskip]
  split
  · rename_i heq
    exact absurd (List.cons.inj heq).1 hne
  · cases items fuel depth cs <;> rfl

private theorem value_object {cs : List Char} (h : ∃ ds, skipBlanks cs = '"' :: ds)
    (fuel depth : Nat) :
    value (fuel + 1) (depth + 1) ('\x7b' :: cs) =
      (entries fuel depth cs).map fun read => (.obj read.1, read.2) := by
  obtain ⟨ds, hskip⟩ := h
  have hbrace : skipBlanks ('\x7b' :: cs) = '\x7b' :: cs := skipBlanks_append blank_nil rfl cs
  simp only [value, hbrace, hskip]
  cases entries fuel depth cs <;> rfl

section Parts

variable {b b' cs rest : List Char} {fuel depth : Nat}

/-- After an item stands a comma and more items, or the closing bracket. -/
private theorem items_comma {x : Json} (hb : Blank b)
    (h : value fuel depth cs = some (x, b ++ ',' :: rest)) :
    items (fuel + 1) depth cs =
      (items fuel depth rest).map fun read => (x :: read.1, read.2) := by
  have hskip : skipBlanks (b ++ ',' :: rest) = ',' :: rest := skipBlanks_append hb rfl rest
  simp only [items, h, hskip, Option.bind_eq_bind, Option.bind_some]
  cases items fuel depth rest <;> rfl

private theorem items_close {x : Json} (hb : Blank b)
    (h : value fuel depth cs = some (x, b ++ ']' :: rest)) :
    items (fuel + 1) depth cs = some ([x], rest) := by
  have hskip : skipBlanks (b ++ ']' :: rest) = ']' :: rest := skipBlanks_append hb rfl rest
  simp only [items, h, hskip, Option.bind_eq_bind, Option.bind_some]

private theorem items_none (h : value fuel depth cs = none) : items (fuel + 1) depth cs = none := by
  simp only [items, h, Option.bind_eq_bind, Option.bind_none]

/-- After a key and its colon stands a value, then a comma and more entries, or the closing
brace. -/
private theorem entries_comma (k : String) {v : Json} (hb : Blank b) (hb' : Blank b')
    (h : value fuel depth cs = some (v, b' ++ ',' :: rest)) :
    entries (fuel + 1) depth (b ++ ((quoted k).toList ++ ':' :: cs)) =
      (entries fuel depth rest).map fun read => ((k, v) :: read.1, read.2) := by
  obtain ⟨ds, hds, hbody⟩ := stringBody_quoted k (':' :: cs)
  have hkey : skipBlanks (b ++ '"' :: ds) = '"' :: ds := skipBlanks_append hb rfl ds
  have hcolon : skipBlanks (':' :: cs) = ':' :: cs := skipBlanks_append blank_nil rfl cs
  have hskip : skipBlanks (b' ++ ',' :: rest) = ',' :: rest := skipBlanks_append hb' rfl rest
  simp only [hds, entries, hkey, hbody, hcolon, h, hskip, Option.bind_eq_bind, Option.bind_some,
    String.ofList_toList]
  cases entries fuel depth rest <;> rfl

private theorem entries_close (k : String) {v : Json} (hb : Blank b) (hb' : Blank b')
    (h : value fuel depth cs = some (v, b' ++ '\x7d' :: rest)) :
    entries (fuel + 1) depth (b ++ ((quoted k).toList ++ ':' :: cs)) = some ([(k, v)], rest) := by
  obtain ⟨ds, hds, hbody⟩ := stringBody_quoted k (':' :: cs)
  have hkey : skipBlanks (b ++ '"' :: ds) = '"' :: ds := skipBlanks_append hb rfl ds
  have hcolon : skipBlanks (':' :: cs) = ':' :: cs := skipBlanks_append blank_nil rfl cs
  have hskip : skipBlanks (b' ++ '\x7d' :: rest) = '\x7d' :: rest :=
    skipBlanks_append hb' rfl rest
  simp only [hds, entries, hkey, hbody, hcolon, h, hskip, Option.bind_eq_bind, Option.bind_some,
    String.ofList_toList]

private theorem entries_none (k : String) (hb : Blank b) (h : value fuel depth cs = none) :
    entries (fuel + 1) depth (b ++ ((quoted k).toList ++ ':' :: cs)) = none := by
  obtain ⟨ds, hds, hbody⟩ := stringBody_quoted k (':' :: cs)
  have hkey : skipBlanks (b ++ '"' :: ds) = '"' :: ds := skipBlanks_append hb rfl ds
  have hcolon : skipBlanks (':' :: cs) = ':' :: cs := skipBlanks_append blank_nil rfl cs
  simp only [hds, entries, hkey, hbody, hcolon, h, Option.bind_eq_bind, Option.bind_some,
    Option.bind_none]

end Parts

mutual

/-- A rendering is read as its value, if the value nests no deeper than is left to open. -/
theorem value_renders : {v : Json} → {cs : List Char} → Renders v cs → {fuel depth : Nat} →
    {rest : List Char} → Stops rest → 2 * cs.length ≤ fuel →
    value fuel depth (cs ++ rest) = if v.depth ≤ depth then some (v, rest) else none
  | _, _, h, 0, depth, rest, _, hf => by
    obtain ⟨c, ds, rfl, -⟩ := h.exists_head
    rw [List.length_cons] at hf
    omega
  | _, _, .null, fuel + 1, depth, rest, _, _ => (if_pos (Nat.zero_le depth)).symm
  | _, _, .yes, fuel + 1, depth, rest, _, _ => (if_pos (Nat.zero_le depth)).symm
  | _, _, .no, fuel + 1, depth, rest, _, _ => (if_pos (Nat.zero_le depth)).symm
  | _, _, .num h, fuel + 1, depth, rest, hr, _ => by
    obtain ⟨t, ht, hn⟩ := h.reads rest hr
    refine Eq.trans ?_ (if_pos (Nat.zero_le depth)).symm
    rw [value_number h.starts]
    simp only [ht, hn, Option.bind_eq_bind, Option.bind_some]
  | _, _, @Renders.str s, fuel + 1, depth, rest, _, _ =>
    (value_string s fuel depth rest).trans (if_pos (Nat.zero_le depth)).symm
  | _, _, .noItems, fuel + 1, 0, rest, _, _ => rfl
  | _, _, .noItems, fuel + 1, depth + 1, rest, _, _ =>
    (if_pos (Nat.succ_le_succ (Nat.zero_le depth))).symm
  | _, _, .noEntries, fuel + 1, 0, rest, _, _ => rfl
  | _, _, .noEntries, fuel + 1, depth + 1, rest, _, _ =>
    (if_pos (Nat.succ_le_succ (Nat.zero_le depth))).symm
  | _, _, .arr h, fuel + 1, 0, rest, _, _ => rfl
  | _, _, @Renders.arr xs cs h, fuel + 1, depth + 1, rest, _, hf => by
    have hlength : 2 * cs.length < fuel := by
      simp only [List.length_cons, List.length_append, List.length_nil] at hf
      omega
    rw [List.cons_append, List.append_assoc, List.singleton_append, value_array (h.skip _),
      items_renders h hlength, apply_ite (Option.map _)]
    exact if_congr (Nat.succ_le_succ_iff.symm) rfl rfl
  | _, _, .obj h, fuel + 1, 0, rest, _, _ => rfl
  | _, _, @Renders.obj es cs h, fuel + 1, depth + 1, rest, _, hf => by
    have hlength : 2 * cs.length < fuel := by
      simp only [List.length_cons, List.length_append, List.length_nil] at hf
      omega
    rw [List.cons_append, List.append_assoc, List.singleton_append, value_object (h.skip _),
      entries_renders h hlength, apply_ite (Option.map _)]
    exact if_congr (Nat.succ_le_succ_iff.symm) rfl rfl
termination_by structural _ _ _ fuel => fuel

theorem items_renders : {xs : List Json} → {cs : List Char} → RendersItems xs cs →
    {fuel depth : Nat} → {rest : List Char} → 2 * cs.length < fuel →
    items fuel depth (cs ++ ']' :: rest) =
      if itemsDepth xs ≤ depth then some (xs, rest) else none
  | _, _, _, 0, depth, rest, hf => absurd hf (Nat.not_lt_zero _)
  | _, _, @RendersItems.last b x cs b' hb h hb', fuel + 1, depth, rest, hf => by
    simp only [List.length_append] at hf
    have hstops : Stops (b' ++ ']' :: rest) := stops_delimiter hb' (by decide) rest
    have hread := (value_skip hb h fuel depth _).trans (value_renders h hstops (by omega))
    have hdepth : itemsDepth [x] = x.depth := Nat.max_zero x.depth
    rw [hdepth, List.append_assoc, List.append_assoc]
    by_cases hd : x.depth ≤ depth
    · rw [if_pos hd] at hread ⊢
      exact items_close hb' hread
    · rw [if_neg hd] at hread ⊢
      exact items_none hread
  | _, _, @RendersItems.cons b x cs xs ds hb h hrest, fuel + 1, depth, rest, hf => by
    simp only [List.length_append, List.length_cons] at hf
    have hstops : Stops (',' :: (ds ++ ']' :: rest)) := stops_delimiter blank_nil (by decide) _
    have hread := (value_skip hb h fuel depth _).trans (value_renders h hstops (by omega))
    have hmore : items fuel depth (ds ++ ']' :: rest) = _ := items_renders hrest (by omega)
    have hdepth : itemsDepth (x :: xs) ≤ depth ↔ x.depth ≤ depth ∧ itemsDepth xs ≤ depth :=
      Nat.max_le
    rw [if_congr hdepth rfl rfl, List.append_assoc, List.append_assoc, List.cons_append]
    by_cases hd : x.depth ≤ depth
    · rw [if_pos hd] at hread
      rw [items_comma blank_nil hread, hmore, apply_ite (Option.map _)]
      exact if_congr (and_iff_right hd).symm rfl rfl
    · rw [if_neg hd] at hread
      rw [items_none hread, if_neg fun h => hd h.1]
termination_by structural _ _ _ fuel => fuel

theorem entries_renders : {es : List (String × Json)} → {cs : List Char} → RendersEntries es cs →
    {fuel depth : Nat} → {rest : List Char} → 2 * cs.length < fuel →
    entries fuel depth (cs ++ '\x7d' :: rest) =
      if entriesDepth es ≤ depth then some (es, rest) else none
  | _, _, _, 0, depth, rest, hf => absurd hf (Nat.not_lt_zero _)
  | _, _, @RendersEntries.last b k b₁ v cs b' hb hb₁ h hb', fuel + 1, depth, rest, hf => by
    simp only [List.length_append, List.length_cons] at hf
    have hstops : Stops (b' ++ '\x7d' :: rest) := stops_delimiter hb' (by decide) rest
    have hread := (value_skip hb₁ h fuel depth _).trans (value_renders h hstops (by omega))
    have hdepth : entriesDepth [(k, v)] = v.depth := Nat.max_zero v.depth
    simp only [hdepth, List.append_assoc, List.cons_append]
    by_cases hd : v.depth ≤ depth
    · rw [if_pos hd] at hread ⊢
      exact entries_close k hb hb' hread
    · rw [if_neg hd] at hread ⊢
      exact entries_none k hb hread
  | _, _, @RendersEntries.cons b k b₁ v cs es ds hb hb₁ h hrest, fuel + 1, depth, rest, hf => by
    simp only [List.length_append, List.length_cons] at hf
    have hstops : Stops (',' :: (ds ++ '\x7d' :: rest)) :=
      stops_delimiter blank_nil (by decide) _
    have hread := (value_skip hb₁ h fuel depth _).trans (value_renders h hstops (by omega))
    have hmore : entries fuel depth (ds ++ '\x7d' :: rest) = _ :=
      entries_renders hrest (by omega)
    have hdepth : entriesDepth ((k, v) :: es) ≤ depth ↔ v.depth ≤ depth ∧ entriesDepth es ≤ depth :=
      Nat.max_le
    rw [if_congr hdepth rfl rfl]
    simp only [List.append_assoc, List.cons_append]
    by_cases hd : v.depth ≤ depth
    · rw [if_pos hd] at hread
      rw [entries_comma k hb blank_nil hread, hmore, apply_ite (Option.map _)]
      exact if_congr (and_iff_right hd).symm rfl rfl
    · rw [if_neg hd] at hread
      rw [entries_none k hb hread, if_neg fun h => hd h.1]
termination_by structural _ _ _ fuel => fuel

end

/-- A text that renders a value is parsed as the value, with its objects sorted, down to the
greatest depth. -/
theorem parse?_of_renders {v : Json} {text : String} (h : Renders v text.toList) :
    parse? text = if v.depth ≤ maxDepth then some v.sorted else none := by
  have hstops : Stops [] := fun c hc => by cases hc
  have hvalue : value (2 * text.toList.length + 2) maxDepth (text.toList ++ []) = _ :=
    value_renders h hstops (Nat.le_add_right _ 2)
  rw [List.append_nil] at hvalue
  unfold parse? document? leading?
  rw [hvalue]
  split <;> rfl

/-! ## Written forms -/

mutual

/-- Every number in the value is read back from its text. -/
def Legible : Json → Prop
  | .num n => n.ReadsBack
  | .arr xs => ItemsLegible xs
  | .obj es => EntriesLegible es
  | _ => True

def ItemsLegible : List Json → Prop
  | [] => True
  | x :: xs => x.Legible ∧ ItemsLegible xs

def EntriesLegible : List (String × Json) → Prop
  | [] => True
  | (_, v) :: es => v.Legible ∧ EntriesLegible es

end

theorem legible_ofStrings (ss : List String) : (ofStrings ss).Legible := by
  have hitems : ItemsLegible (ss.map .str) := by
    induction ss with
    | nil => trivial
    | cons s ss ih => exact ⟨trivial, ih⟩
  exact hitems

mutual

theorem renders_compact : (v : Json) → v.Legible → Renders v v.compact.toList
  | .null, _ => .null
  | .bool true, _ => .yes
  | .bool false, _ => .no
  | .num _, h => .num h
  | .str _, _ => .str
  | .arr [], _ => .noItems
  | .arr (x :: xs), h => by
    have hitems := rendersItems_compact (x :: xs) (List.cons_ne_nil x xs) h
    simpa [compact] using Renders.arr hitems
  | .obj [], _ => .noEntries
  | .obj (e :: es), h => by
    have hentries := rendersEntries_compact (e :: es) (List.cons_ne_nil e es) h
    simpa [compact] using Renders.obj hentries

theorem rendersItems_compact : (xs : List Json) → xs ≠ [] → ItemsLegible xs →
    RendersItems xs (compactItems xs).toList
  | [], hne, _ => absurd rfl hne
  | [x], _, h => by
    simpa [compactItems] using RendersItems.last blank_nil (renders_compact x h.1) blank_nil
  | x :: y :: ys, _, h => by
    have hrest := rendersItems_compact (y :: ys) (List.cons_ne_nil y ys) h.2
    simpa [compactItems] using RendersItems.cons blank_nil (renders_compact x h.1) hrest

theorem rendersEntries_compact : (es : List (String × Json)) → es ≠ [] → EntriesLegible es →
    RendersEntries es (compactEntries es).toList
  | [], hne, _ => absurd rfl hne
  | [(k, v)], _, h => by
    have hv := renders_compact v h.1
    simpa [compactEntries] using
      (RendersEntries.last blank_nil blank_nil hv blank_nil : RendersEntries [(k, v)] _)
  | (k, v) :: e :: es, _, h => by
    have hv := renders_compact v h.1
    have hrest := rendersEntries_compact (e :: es) (List.cons_ne_nil e es) h.2
    simpa [compactEntries] using
      (RendersEntries.cons blank_nil blank_nil hv hrest : RendersEntries ((k, v) :: e :: es) _)

end

private theorem blank_newLine (depth : Nat) : Blank (newLine depth).toList := by
  intro c hc
  simp only [newLine, String.toList_append, String.toList_ofList, List.mem_append] at hc
  rcases hc with hc | hc
  · obtain rfl : c = '\n' := by simpa using hc
    rfl
  · obtain rfl := (List.mem_replicate.1 hc).2
    rfl

private theorem blank_space : Blank [' '] := by
  intro c hc
  obtain rfl := List.mem_singleton.1 hc
  rfl

mutual

theorem renders_prettyAt : (v : Json) → (indent : Nat) → v.Legible →
    Renders v (v.prettyAt indent).toList
  | .null, _, _ => by
    rw [prettyAt]
    exact .null
  | .bool true, _, _ => by
    rw [prettyAt]
    exact .yes
  | .bool false, _, _ => by
    rw [prettyAt]
    exact .no
  | .num _, _, h => .num h
  | .str _, _, _ => .str
  | .arr [], _, _ => by
    rw [prettyAt]
    exact .noItems
  | .arr (x :: xs), indent, h => by
    have hitems := rendersItems_pretty (x :: xs) (indent + 1) (List.cons_ne_nil x xs) h
      (blank_newLine indent)
    simpa [prettyAt] using Renders.arr hitems
  | .obj [], _, _ => by
    rw [prettyAt]
    exact .noEntries
  | .obj (e :: es), indent, h => by
    have hentries := rendersEntries_pretty (e :: es) (indent + 1) (List.cons_ne_nil e es) h
      (blank_newLine indent)
    simpa [prettyAt] using Renders.obj hentries

/-- The blanks `b` after the last item are the line break before the closing bracket. -/
theorem rendersItems_pretty : (xs : List Json) → (indent : Nat) → xs ≠ [] → ItemsLegible xs →
    {b : List Char} → Blank b → RendersItems xs ((prettyItems indent xs).toList ++ b)
  | [], _, hne, _, _, _ => absurd rfl hne
  | [x], indent, _, h, b, hb => by
    have hx := renders_prettyAt x indent h.1
    simpa [prettyItems] using RendersItems.last (blank_newLine indent) hx hb
  | x :: y :: ys, indent, _, h, b, hb => by
    have hx := renders_prettyAt x indent h.1
    have hrest := rendersItems_pretty (y :: ys) indent (List.cons_ne_nil y ys) h.2 hb
    simpa [prettyItems] using RendersItems.cons (blank_newLine indent) hx hrest

theorem rendersEntries_pretty : (es : List (String × Json)) → (indent : Nat) → es ≠ [] →
    EntriesLegible es → {b : List Char} → Blank b →
    RendersEntries es ((prettyEntries indent es).toList ++ b)
  | [], _, hne, _, _, _ => absurd rfl hne
  | [(k, v)], indent, _, h, b, hb => by
    have hv := renders_prettyAt v indent h.1
    simpa [prettyEntries] using
      (RendersEntries.last (blank_newLine indent) blank_space hv hb : RendersEntries [(k, v)] _)
  | (k, v) :: e :: es, indent, _, h, b, hb => by
    have hv := renders_prettyAt v indent h.1
    have hrest := rendersEntries_pretty (e :: es) indent (List.cons_ne_nil e es) h.2 hb
    simpa [prettyEntries] using
      (RendersEntries.cons (blank_newLine indent) blank_space hv hrest :
        RendersEntries ((k, v) :: e :: es) _)

end

/-- The compact text of a value is parsed as the value, down to the greatest depth. -/
theorem parse?_compact {v : Json} (h : v.Legible) :
    parse? v.compact = if v.depth ≤ maxDepth then some v.sorted else none :=
  parse?_of_renders (renders_compact v h)

/-- The pretty text of a value is parsed as the value, down to the greatest depth. -/
theorem parse?_pretty {v : Json} (h : v.Legible) :
    parse? v.pretty = if v.depth ≤ maxDepth then some v.sorted else none :=
  parse?_of_renders (renders_prettyAt v 0 h)

end Json
end Restorable
