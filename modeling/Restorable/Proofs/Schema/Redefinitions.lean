-- SUMMARY: A definition that stands twice is read twice exactly when its references name what was completed before.
import Restorable.Proofs.Schema.Mentions
import Restorable.Proofs.Schema.Rereading

/-!
# Redefinitions

A second definition of a name has to equal the first. It stands where every name of the first
is complete, so its references find more than those of the first did: a record around them is
complete by now, and so is a name within the namespace that was defined later. The definition
is read again as it was exactly when no reference found less the first time.
-/
namespace Restorable
namespace Schema

open Steps

/-! ## Settled references -/

/-- A reference whose name, within the namespace or else as it stands, was defined before. The
text as it stands does only if the namespace never has the name. -/
def Mention.Settled (all before : List Mention) : Mention → Prop
  | .definition _ => True
  | .reference text space =>
    .definition (Form.qualified text space) ∈ before ∨
      (.definition (Form.qualified text space) ∉ all ∧ .definition text ∈ before)

/-- Every reference is settled, after the mentions `before`. -/
def SettledAfter (all before : List Mention) : List Mention → Prop
  | [] => True
  | m :: rest => m.Settled all before ∧ SettledAfter all (before ++ [m]) rest

/-- Every reference of a document is settled where it stands. -/
def Settled (v : Json) : Prop :=
  SettledAfter (form v none).mentions [] (form v none).mentions

instance (all before : List Mention) : DecidablePred (Mention.Settled all before)
  | .definition _ => isTrue trivial
  | .reference .. => inferInstanceAs (Decidable (_ ∨ _))

instance decidableSettledAfter (all : List Mention) : (before ms : List Mention) →
    Decidable (SettledAfter all before ms)
  | _, [] => isTrue trivial
  | before, m :: rest =>
    have := decidableSettledAfter all (before ++ [m]) rest
    inferInstanceAs (Decidable (_ ∧ _))

instance : DecidablePred Settled := fun _ => decidableSettledAfter _ _ _

private theorem settledAfter_append {all before ms ns : List Mention} :
    SettledAfter all before (ms ++ ns) ↔
      SettledAfter all before ms ∧ SettledAfter all (before ++ ms) ns := by
  induction ms generalizing before with
  | nil => simp [SettledAfter]
  | cons m ms ih => simp [SettledAfter, ih, and_assoc]

/-- A reference to a name that is defined after it only is not settled. -/
private theorem not_settledAfter_of_later {pre post : List Mention} {text : String}
    {space : Option String} (hpre : .definition (Form.qualified text space) ∉ pre)
    (hpost : .definition (Form.qualified text space) ∈ post) :
    ¬ SettledAfter (pre ++ .reference text space :: post) []
      (pre ++ .reference text space :: post) := by
  intro h
  obtain ⟨-, hreference, -⟩ := settledAfter_append.1 h
  rcases hreference with hbefore | ⟨hall, -⟩
  · exact hpre hbefore
  · exact hall (List.mem_append_right pre (List.mem_cons_of_mem _ hpost))

/-- A record is not settled if its fields refer to it by its full name and do not define it. -/
theorem not_settled_of_recursive {v : Json} {n : Name} {doc : Option String}
    {fields : List (Field Form)} {text : String} {space : Option String}
    (hform : form v none = .record n doc fields)
    (hrefers : .reference text space ∈ Form.fieldMentions fields)
    (hself : Form.qualified text space = n.full)
    (hnew : .definition n.full ∉ Form.fieldMentions fields) : ¬ Settled v := by
  obtain ⟨pre, post, hsplit⟩ := List.append_of_mem hrefers
  have hmentions : (form v none).mentions =
      pre ++ .reference text space :: (post ++ [.definition n.full]) := by
    rw [hform, Form.mentions, hsplit, List.append_assoc, List.cons_append]
  rw [Settled, hmentions]
  apply not_settledAfter_of_later
  · rw [hself]
    exact fun hpre => hnew (hsplit ▸ List.mem_append_left _ hpre)
  · rw [hself]
    exact List.mem_append_right post List.mem_cons_self

variable {space : Option String} {scope scope' : Scope} {owner : String}

/-! ## The second reading -/

/-- The full name under which a type is defined. -/
def defined? : Schema → Option String
  | .fixed n _ _ | .enum n _ | .record n _ _ => some n.full
  | _ => none

@[simp] theorem defined?_normal (s : Schema) : s.normal.defined? = s.defined? := by
  cases s <;> rfl

mutual

private theorem defined?_of_mem_types : (s : Schema) → {d : String × Schema} → d ∈ s.types →
    d.2.defined? = some d.1
  | .fixed .., _, h | .enum .., _, h => by
    obtain rfl := List.mem_singleton.1 h
    rfl
  | .array s, _, h | .map s, _, h => defined?_of_mem_types s h
  | .union ss, _, h => defined?_of_mem_memberTypes ss h
  | .record n doc fs, _, h => by
    rcases List.mem_cons.1 h with rfl | h
    · rfl
    · exact defined?_of_mem_fieldTypes fs h
  | .null, _, h | .boolean, _, h | .int _, _, h | .long _, _, h | .float, _, h | .double, _, h
  | .string _, _, h | .bytes _, _, h | .ref _, _, h => absurd h List.not_mem_nil

private theorem defined?_of_mem_memberTypes : (ss : List Schema) → {d : String × Schema} →
    d ∈ memberTypes ss → d.2.defined? = some d.1
  | [], _, h => absurd h List.not_mem_nil
  | s :: ss, _, h => (List.mem_append.1 h).elim (defined?_of_mem_types s)
      (defined?_of_mem_memberTypes ss)

private theorem defined?_of_mem_fieldTypes : (fs : List (Field Schema)) → {d : String × Schema} →
    d ∈ fieldTypes fs → d.2.defined? = some d.1
  | [], _, h => absurd h List.not_mem_nil
  | ⟨_, s, _⟩ :: fs, _, h => (List.mem_append.1 h).elim (defined?_of_mem_types s)
      (defined?_of_mem_fieldTypes fs)

end

/-- What the first reading completes: the names that are mentioned as definitions, each with a
type of that name. The name of the record around is not among them. -/
structure Completes (final : Scope) (owner : String) (all : List Mention) : Prop where
  defined : ∀ {full t}, final.meaning full = some t → t.defined? = some full
  known : ∀ full, (final.meaning full).isSome = true ↔ .definition full ∈ all
  undotted : '.' ∉ owner.toList
  owner : .definition owner ∉ all

/-- A place in the first reading, after the mentions `before`. -/
structure Passes (final scope : Scope) (before : List Mention) : Prop where
  known : ∀ full, (scope.meaning full).isSome = true ↔ .definition full ∈ before
  keeps : scope.KeptIn final
  opened : ∀ full ∈ scope.pending, (final.meaning full).isSome = true

/-- A place in the second reading: all names are complete, and besides them only the record
around is open. -/
structure Repeats (final : Scope) (owner : String) (copy : Scope) : Prop where
  meaning : ∀ full, copy.meaning full = final.meaning full
  opened : ∀ full ∈ copy.pending, full = owner ∨ (final.meaning full).isSome = true

variable {final copy : Scope} {all before ms : List Mention}

namespace Passes

theorem step (h : Passes final scope before) (hgrows : Grows scope scope' ms)
    (hkeeps : scope'.KeptIn final) : Passes final scope' (before ++ ms) := by
  refine ⟨fun full => ?_, hkeeps, fun full hopen => h.opened full (hgrows.pending full hopen)⟩
  rw [hgrows.known, h.known, List.mem_append]

theorem enter {full : String} (h : Passes final scope before)
    (hfull : (final.meaning full).isSome = true) : Passes final (scope.enter full) before := by
  refine ⟨h.known, h.keeps, fun other hopen => ?_⟩
  rcases List.mem_cons.1 hopen with rfl | hopen
  · exact hfull
  · exact h.opened other hopen

/-- What a name stands for the first time is a type that is complete already, or a reference
to a record that is complete later. -/
theorem resolve {full : String} {s : Schema} (h : Passes final scope before)
    (hs : scope.resolve full = some s) :
    (.definition full ∈ before ∧ final.meaning full = some s.normal) ∨
      (.definition full ∉ before ∧ s.defined? = none ∧ (final.meaning full).isSome = true) := by
  rw [← h.known]
  unfold Scope.resolve at hs
  cases hknown : scope.lookup full with
  | some t =>
    simp only [hknown, Option.some.injEq] at hs
    subst hs
    have hmeaning := Scope.meaning_of_lookup hknown
    exact .inl ⟨by rw [hmeaning, Option.isSome_some], h.keeps _ _ hmeaning⟩
  | none =>
    simp only [hknown, Option.ite_none_right_eq_some, Option.some.injEq] at hs
    obtain ⟨hopen, rfl⟩ := hs
    refine .inr ⟨?_, rfl, h.opened full hopen⟩
    rw [Scope.meaning_eq_none.2 hknown, Option.isSome_none]
    exact Bool.noConfusion

private theorem isSome_of_resolve {full : String} {s : Schema} (h : Passes final scope before)
    (hs : scope.resolve full = some s) : (final.meaning full).isSome = true := by
  rcases h.resolve hs with ⟨-, hmeaning⟩ | ⟨-, -, hsome⟩
  · rw [hmeaning, Option.isSome_some]
  · exact hsome

/-- A name that is defined before is resolved. -/
private theorem resolve_ne_none {full : String} (h : Passes final scope before)
    (hbefore : .definition full ∈ before) : scope.resolve full ≠ none := by
  intro hnone
  have hsome := (h.known full).2 hbefore
  rw [(Scope.resolve_eq_none.1 hnone).1] at hsome
  cases hsome

/-- What a name stood for the first time is what some name stands for in the end: exactly if
both are one name, which is defined before. -/
private theorem meaning_eq_iff {full other : String} {s : Schema} (h : Passes final scope before)
    (hfinal : Completes final owner all) (hs : scope.resolve full = some s) :
    final.meaning other = some s.normal ↔ other = full ∧ .definition full ∈ before := by
  rcases h.resolve hs with ⟨hbefore, hmeaning⟩ | ⟨hbefore, hplain, -⟩
  · constructor
    · intro hother
      have hnames := (hfinal.defined hother).symm.trans (hfinal.defined hmeaning)
      exact ⟨Option.some.inj hnames, hbefore⟩
    · rintro ⟨rfl, -⟩
      exact hmeaning
  · refine iff_of_false (fun hother => ?_) fun hboth => hbefore hboth.2
    have hdefined := hfinal.defined hother
    rw [defined?_normal, hplain] at hdefined
    cases hdefined

end Passes

namespace Repeats

theorem enter {full : String} (h : Repeats final owner copy)
    (hfull : (final.meaning full).isSome = true) : Repeats final owner (copy.enter full) := by
  refine ⟨h.meaning, fun other hopen => ?_⟩
  rcases List.mem_cons.1 hopen with rfl | hopen
  · exact .inr hfull
  · exact h.opened other hopen

theorem leave (h : Repeats final owner copy) (full : String) :
    Repeats final owner (copy.leave full) :=
  ⟨h.meaning, fun other hopen => h.opened other (List.mem_of_mem_filter hopen)⟩

theorem accepts {full : String} {s t : Schema} (h : Repeats final owner copy)
    (hfull : final.meaning full = some s.normal) (heq : t.normal = s.normal) :
    copy.Accepts full t := by
  intro known hknown
  have hmeaning := Scope.meaning_of_lookup hknown
  rw [h.meaning, hfull, Option.some.injEq] at hmeaning
  rw [← hmeaning, heq]

theorem complete {full : String} {s t : Schema} (h : Repeats final owner copy)
    (hfull : final.meaning full = some s.normal) (heq : t.normal = s.normal) :
    Repeats final owner (copy.complete full t) := by
  refine ⟨fun other => ?_, h.opened⟩
  by_cases hother : other = full
  · subst hother
    simp [hfull, heq]
  · rw [Scope.meaning_complete_of_ne t hother, h.meaning]

/-- Every name but that of the record around stands for what it stands for in the end. -/
theorem resolve {full : String} (h : Repeats final owner copy) (hne : full ≠ owner) :
    (copy.resolve full).map normal = final.meaning full := by
  rw [Follows.map_resolve, h.meaning]
  cases hknown : final.meaning full with
  | some t => rfl
  | none =>
    have hopen : full ∉ copy.pending := by
      intro hopen
      rcases h.opened full hopen with heq | hsome
      · exact hne heq
      · rw [hknown] at hsome
        cases hsome
    rw [if_neg hopen, Option.none_or]

end Repeats

theorem Completes.ne_owner {full : String} (h : Completes final owner all)
    (hfull : (final.meaning full).isSome = true) : full ≠ owner := by
  rintro rfl
  exact h.owner ((h.known full).1 hfull)

theorem Repeats.lookup_owner (h : Repeats final owner copy) (hfinal : Completes final owner all) :
    copy.lookup owner = none := by
  rw [← Scope.meaning_eq_none, h.meaning, ← Option.not_isSome_iff_eq_none, hfinal.known]
  exact hfinal.owner

/-- A name within the namespace that is complete in the end is what the reference stands for
the second time. -/
private theorem Repeats.resolve_qualified {text : String} {s u : Schema}
    (hcopy : Repeats final owner copy) (hfinal : Completes final owner all)
    (hpass : Passes final scope before) (hqual : final.meaning (Form.qualified text space) = some u)
    (hs : Form.resolve text space scope = some s) :
    ∃ t, Form.resolve text space copy = some t ∧
      (t.normal = s.normal ↔ .definition (Form.qualified text space) ∈ before) := by
  have hne := hfinal.ne_owner (by rw [hqual, Option.isSome_some])
  obtain ⟨t, ht, rfl⟩ := Option.map_eq_some_iff.1 ((hcopy.resolve hne).trans hqual)
  refine ⟨t, by rw [Form.resolve, ht, Option.some_or], ?_⟩
  have hmeaning : t.normal = s.normal ↔
      final.meaning (Form.qualified text space) = some s.normal := by
    rw [hqual, Option.some.injEq]
  rcases Option.or_eq_some_iff.1 hs with hfirst | ⟨hfirst, htext⟩
  · rw [hmeaning, hpass.meaning_eq_iff hfinal hfirst]
    exact and_iff_right rfl
  · rw [hmeaning, hpass.meaning_eq_iff hfinal htext]
    refine iff_of_false (fun hboth => ?_) fun hbefore => hpass.resolve_ne_none hbefore hfirst
    rw [hboth.1, htext] at hfirst
    cases hfirst

/-- Where the namespace never has the name, both times the text is taken as it stands. -/
private theorem Repeats.resolve_plain {text : String} {s : Schema}
    (hcopy : Repeats final owner copy) (hfinal : Completes final owner all)
    (hpass : Passes final scope before) (hqual : final.meaning (Form.qualified text space) = none)
    (hs : Form.resolve text space scope = some s) :
    ∃ t, Form.resolve text space copy = some t ∧
      (t.normal = s.normal ↔ .definition text ∈ before) := by
  have hnever : scope.resolve (Form.qualified text space) ≠ some s := by
    intro hfirst
    have hsome := hpass.isSome_of_resolve hfirst
    rw [hqual] at hsome
    cases hsome
  obtain ⟨-, htext⟩ := (Option.or_eq_some_iff.1 hs).resolve_left hnever
  have hsome := hpass.isSome_of_resolve htext
  have hne := hfinal.ne_owner hsome
  have hqualNe : Form.qualified text space ≠ owner := fun heq =>
    hne (Form.eq_of_qualified heq hfinal.undotted)
  have hnone : copy.resolve (Form.qualified text space) = none :=
    Option.map_eq_none_iff.1 ((hcopy.resolve hqualNe).trans hqual)
  obtain ⟨u, hu⟩ := Option.isSome_iff_exists.1 hsome
  obtain ⟨t, ht, rfl⟩ := Option.map_eq_some_iff.1 ((hcopy.resolve hne).trans hu)
  refine ⟨t, by rw [Form.resolve, hnone, Option.none_or, ht], ?_⟩
  have hmeaning : t.normal = s.normal ↔ final.meaning text = some s.normal := by
    rw [hu, Option.some.injEq]
  rw [hmeaning, hpass.meaning_eq_iff hfinal htext]
  exact and_iff_right rfl

/-- The second time a reference stands for a type that is complete in the end, and for what it
stood for the first time exactly if it is settled. -/
private theorem Repeats.resolve_reference {text : String} {s : Schema}
    (hcopy : Repeats final owner copy) (hfinal : Completes final owner all)
    (hpass : Passes final scope before) (hs : Form.resolve text space scope = some s) :
    ∃ t, Form.resolve text space copy = some t ∧
      (t.normal = s.normal ↔ (Mention.reference text space).Settled all before) := by
  have hall := hfinal.known (Form.qualified text space)
  have hbefore := hpass.known (Form.qualified text space)
  cases hqual : final.meaning (Form.qualified text space) with
  | some u =>
    obtain ⟨t, ht, heq⟩ := hcopy.resolve_qualified hfinal hpass hqual hs
    rw [hqual, Option.isSome_some] at hall
    refine ⟨t, ht, heq.trans (or_iff_left fun hlate => ?_).symm⟩
    exact hlate.1 (hall.1 rfl)
  | none =>
    obtain ⟨t, ht, heq⟩ := hcopy.resolve_plain hfinal hpass hqual hs
    have hnever : .definition (Form.qualified text space) ∉ all := by
      rw [← hall, hqual]
      exact Bool.noConfusion
    have hnot : .definition (Form.qualified text space) ∉ before := by
      intro hearly
      obtain ⟨u, hu⟩ := Option.isSome_iff_exists.1 (hbefore.2 hearly)
      cases hqual.symm.trans (hpass.keeps _ _ hu)
    refine ⟨t, ht, heq.trans ?_⟩
    exact ((or_iff_right hnot).trans (and_iff_right hnever)).symm

/-- A step that runs is run again exactly if what it gives is what it gave. -/
private theorem Rereads.of_run {α β : Type} {norm : α → β} {step : Read α} {a b : α} {copy' : Scope}
    {spelled : Prop} {after : Scope → Prop} (h : step copy = .ok (b, copy'))
    (heq : norm b = norm a ↔ spelled) (hafter : after copy') :
    Rereads norm step copy a spelled after := by
  refine ⟨fun hs => ⟨b, copy', h, heq.2 hs⟩, fun hstep hb => ?_⟩
  rw [h] at hstep
  cases hstep
  exact ⟨heq.1 hb, hafter⟩

namespace Form

mutual

/-- A form that was read is read again to the same schema, after all its names are complete,
exactly when its references are settled. -/
theorem rereads (hfinal : Completes final owner all) : (f : Form) →
    {scope scope' copy : Scope} → {before : List Mention} → {s : Schema} →
    f.read scope = .ok (s, scope') → Passes final scope before → scope'.KeptIn final →
    Repeats final owner copy →
    Rereads normal f.read copy s (SettledAfter all before f.mentions) (Repeats final owner)
  | .fault _, _, _, _, _, _, h, _, _, _ => (throw_eq_ok.1 h).elim
  | .plain _, _, _, _, _, _, h, _, _, hcopy => by
    obtain ⟨rfl, rfl⟩ := pure_eq_ok.1 h
    exact .of_ok pure_run rfl trivial hcopy
  | .reference text space, _, _, _, _, _, h, hpass, _, hcopy => by
    obtain ⟨hs, rfl⟩ := readResolved_eq_ok.1 h
    obtain ⟨t, ht, heq⟩ := hcopy.resolve_reference hfinal hpass hs
    exact .of_run (readResolved_eq_ok.2 ⟨ht, rfl⟩) (heq.trans (and_true _).symm.to_iff) hcopy
  | .array f, _, _, _, _, _, h, hpass, hlast, hcopy => by
    obtain ⟨s, hf, rfl⟩ := bind_pure_eq_ok.1 h
    refine .map (f.rereads hfinal hf hpass hlast hcopy) ?_
    intro t
    simp only [normal, Schema.array.injEq]
  | .map f, _, _, _, _, _, h, hpass, hlast, hcopy => by
    obtain ⟨s, hf, rfl⟩ := bind_pure_eq_ok.1 h
    refine .map (f.rereads hfinal hf hpass hlast hcopy) ?_
    intro t
    simp only [normal, Schema.map.injEq]
  | .union fs, _, _, _, _, _, h, hpass, hlast, hcopy => by
    obtain ⟨ss, hfs, rfl⟩ := bind_pure_eq_ok.1 h
    refine .map (readMembers_rereads hfinal fs hfs hpass hlast hcopy) ?_
    intro ts
    simp only [normal, Schema.union.injEq]
  | .definition n s, _, _, _, _, _, h, _, hlast, hcopy => by
    obtain ⟨hacc, rfl, rfl⟩ := register_eq_ok.1 h
    have hfull := hlast _ _ (Scope.meaning_complete_self n.full s)
    refine .of_ok (register_eq_ok.2 ⟨hcopy.accepts hfull rfl, rfl, rfl⟩) rfl ⟨trivial, trivial⟩ ?_
    exact hcopy.complete hfull rfl
  | .record n doc fields, scope, _, copy, before, _, h, hpass, hlast, hcopy => by
    obtain ⟨fs, scope₁, hfs, hacc, rfl, rfl⟩ := read_record_eq_ok.1 h
    have hfull := hlast _ _ (Scope.meaning_complete_self n.full (.record n doc fs))
    have hsome : (final.meaning n.full).isSome = true := by rw [hfull, Option.isSome_some]
    have hfields := readFields_rereads hfinal fields hfs (hpass.enter hsome)
      (hacc.keptIn.trans hlast) (hcopy.enter hsome)
    have hbody : Rereads normal
        (do
          let gs ← readFields fields
          modify (·.leave n.full)
          register n (.record n doc gs))
        (copy.enter n.full) (.record n doc fs)
        (SettledAfter all before (fieldMentions fields) ∧ True) (Repeats final owner) := by
      apply Rereads.bind hfields
      · intro gs copy₁ t copy' hstep heq
        obtain ⟨-, rfl, -⟩ := register_eq_ok.1 hstep
        exact (Schema.record.inj heq).2.2
      · intro gs copy₁ heq hcopy₁
        have hnormal : (Schema.record n doc gs).normal = (Schema.record n doc fs).normal := by
          rw [normal, normal, heq]
        have hleft := hcopy₁.leave n.full
        exact .of_ok (register_eq_ok.2 ⟨hleft.accepts hfull hnormal, rfl, rfl⟩) hnormal trivial
          (hleft.complete hfull hnormal)
    refine (hbody.congr rfl ?_ id).of_eq rfl
    rw [mentions, settledAfter_append]
    exact and_congr_right fun _ => (iff_of_eq (and_true True)).symm

theorem readMembers_rereads (hfinal : Completes final owner all) : (fs : List Form) →
    {seen : List String} → {scope scope' copy : Scope} → {before : List Mention} →
    {ss : List Schema} → readMembers fs seen scope = .ok (ss, scope') →
    Passes final scope before → scope'.KeptIn final → Repeats final owner copy →
    Rereads normalMembers (readMembers fs seen) copy ss
      (SettledAfter all before (memberMentions fs)) (Repeats final owner)
  | [], _, _, _, _, _, _, h, _, _, hcopy => by
    obtain ⟨rfl, rfl⟩ := pure_eq_ok.1 h
    exact .of_ok pure_run rfl trivial hcopy
  | f :: rest, seen, _, _, _, _, _, h, hpass, hlast, hcopy => by
    obtain ⟨s, key, tail, scope₁, hf, hkey, hrest, rfl⟩ := readMembers_cons_eq_ok.1 h
    have hlast₁ := (memberMentions_grows rest hrest).keeps.trans hlast
    have hpass₁ := hpass.step (f.grows hf) hlast₁
    refine .congr (.bind (f.rereads hfinal hf hpass hlast₁ hcopy) ?_ ?_) rfl
      settledAfter_append.symm id
    · intro t copy₁ ts copy' hstep heq
      obtain ⟨key', copy₂, -, hstep⟩ := bind_eq_ok.1 hstep
      obtain ⟨us, copy₃, -, hstep⟩ := bind_eq_ok.1 hstep
      obtain ⟨rfl, -⟩ := pure_eq_ok.1 hstep
      exact (List.cons.inj heq).1
    · intro t copy₁ heq hcopy₁
      have htail := readMembers_rereads hfinal rest hrest hpass₁ hlast hcopy₁
      have hcheck : checkMember t seen = .ok key := by
        rw [checkMember_eq_ok] at hkey ⊢
        rwa [isUnion_eq_of_normal heq, memberKey_eq_of_normal heq]
      refine .of_eq (.congr (.map htail ?_) ?_ Iff.rfl id) (bind_of_ok (lift_of_ok hcheck))
      · intro ts
        simp only [normalMembers, List.cons.injEq, true_and]
      · rw [normalMembers, normalMembers, heq]

theorem readFields_rereads (hfinal : Completes final owner all) : (fields : List (Field Form)) →
    {scope scope' copy : Scope} → {before : List Mention} → {fs : List (Field Schema)} →
    readFields fields scope = .ok (fs, scope') → Passes final scope before →
    scope'.KeptIn final → Repeats final owner copy →
    Rereads normalFields (readFields fields) copy fs
      (SettledAfter all before (fieldMentions fields)) (Repeats final owner)
  | [], _, _, _, _, _, h, _, _, hcopy => by
    obtain ⟨rfl, rfl⟩ := pure_eq_ok.1 h
    exact .of_ok pure_run rfl trivial hcopy
  | ⟨name, f, default⟩ :: rest, _, _, _, _, _, h, hpass, hlast, hcopy => by
    obtain ⟨s, tail, scope₁, hf, hrest, rfl⟩ := readFields_cons_eq_ok.1 h
    have hlast₁ := (fieldMentions_grows rest hrest).keeps.trans hlast
    have hpass₁ := hpass.step (f.grows hf) hlast₁
    refine .congr (.bind (f.rereads hfinal hf hpass hlast₁ hcopy) ?_ ?_) rfl
      settledAfter_append.symm id
    · intro t copy₁ gs copy' hstep heq
      obtain ⟨us, copy₂, -, hstep⟩ := bind_eq_ok.1 hstep
      obtain ⟨rfl, -⟩ := pure_eq_ok.1 hstep
      exact (Field.mk.inj (List.cons.inj heq).1).2.1
    · intro t copy₁ heq hcopy₁
      have htail := readFields_rereads hfinal rest hrest hpass₁ hlast hcopy₁
      refine .congr (.map htail ?_) ?_ Iff.rfl id
      · intro gs
        simp only [normalFields, List.cons.injEq, true_and]
      · rw [normalFields, normalFields, heq]

end

end Form

/-! ## A definition that stands twice -/

/-- A record with two fields whose type is the same document. -/
def twice (owner : String) (v : Json) : Json :=
  .obj [
    ("fields", .arr [.obj [("name", .str "a"), ("type", v)], .obj [("name", .str "b"), ("type", v)]]),
    ("name", .str owner), ("type", .str "record")]

/-- The record around with the schemas of its two fields. -/
def pair (owner : String) (s t : Schema) : Schema :=
  .record ⟨owner, none⟩ none [⟨"a", s, none⟩, ⟨"b", t, none⟩]

/-- The document is read inside the record and once more; then the record is completed. -/
private theorem ofJson?_twice_eq_ok {v : Json} {s r : Schema}
    (hn : Name.Writable ⟨owner, none⟩ none)
    (hs : read v none (Scope.empty.under owner) = .ok (s, scope)) :
    ofJson? (twice owner v) = .ok r ↔ ∃ t scope', read v none scope = .ok (t, scope') ∧
      (scope'.leave owner).Accepts owner (pair owner s t) ∧ pair owner s t = r := by
  have hread : read (twice owner v) none .empty = (do
      let fs ← readFields [fieldJson "a" v none, fieldJson "b" v none] ⟨owner, none⟩ []
      modify (·.leave owner)
      register ⟨owner, none⟩ (.record ⟨owner, none⟩ none fs) : Read Schema)
      (Scope.empty.under owner) :=
    @read_recordJson none .empty ⟨owner, none⟩ none
      [fieldJson "a" v none, fieldJson "b" v none] hn
  have hfields : ∀ {fs scope'}, readFields [fieldJson "a" v none, fieldJson "b" v none]
      ⟨owner, none⟩ [] (Scope.empty.under owner) = .ok (fs, scope') ↔
      ∃ t, read v none scope = .ok (t, scope') ∧ [⟨"a", s, none⟩, ⟨"b", t, none⟩] = fs := by
    intro fs scope'
    rw [readFields_fieldJson (by decide) List.not_mem_nil, bind_of_ok hs, bind_eq_ok]
    constructor
    · rintro ⟨gs, scope₁, hgs, h⟩
      obtain ⟨rfl, rfl⟩ := pure_eq_ok.1 h
      rw [readFields_fieldJson (by decide) (by decide)] at hgs
      obtain ⟨t, scope₂, ht, h⟩ := bind_eq_ok.1 hgs
      obtain ⟨rfl, rfl⟩ := pure_eq_ok.1 h
      exact ⟨t, ht, rfl⟩
    · rintro ⟨t, ht, rfl⟩
      refine ⟨[⟨"b", t, none⟩], scope', ?_, pure_run⟩
      rw [readFields_fieldJson (by decide) (by decide), bind_of_ok ht]
      rfl
  rw [ofJson?_eq_ok, hread]
  constructor
  · rintro ⟨scope'', h⟩
    obtain ⟨fs, scope', hfs, h⟩ := bind_eq_ok.1 h
    obtain ⟨t, ht, rfl⟩ := hfields.1 hfs
    obtain ⟨hacc, rfl, -⟩ := register_eq_ok.1 h
    exact ⟨t, scope', ht, hacc, rfl⟩
  · rintro ⟨t, scope', ht, hacc, rfl⟩
    refine ⟨(scope'.leave owner).complete owner (pair owner s t), ?_⟩
    exact (bind_of_ok (hfields.2 ⟨t, ht, rfl⟩)).trans (register_eq_ok.2 ⟨hacc, rfl, rfl⟩)

@[simp] theorem pair_inj {s s' t t' : Schema} :
    pair owner s t = pair owner s' t' ↔ s = s' ∧ t = t' := by
  simp [pair]

private theorem passes_empty (final : Scope) : Passes final .empty [] := by
  refine ⟨fun full => ?_, fun full t h => ?_, List.forall_mem_nil _⟩
  · simp [Scope.meaning, Scope.lookup, Scope.empty]
  · cases h

private theorem completes_of_read {v : Json} {s : Schema} (h : read v none .empty = .ok (s, final))
    (howner : Name.isIdentifier owner.toList = true)
    (hnew : .definition owner ∉ (form v none).mentions) :
    Completes final owner (form v none).mentions := by
  have hundotted := Name.not_mem_of_isPart (Name.isPart_of_isIdentifier howner)
  refine ⟨fun hfull => ?_, fun full => ?_, hundotted, hnew⟩
  · rcases (reads_of_read v h).extends.adds hfull with hbefore | hmem
    · cases hbefore
    · exact defined?_of_mem_types _ hmem
  · rw [(grows_of_read h).known]
    exact or_iff_right Bool.noConfusion

private theorem repeats_under {v : Json} {s : Schema} (h : read v none .empty = .ok (s, final)) :
    Repeats final owner (final.under owner) := by
  refine ⟨fun _ => rfl, fun full hopen => ?_⟩
  rcases List.mem_append.1 hopen with hopen | hopen
  · exact absurd ((grows_of_read h).pending full hopen) List.not_mem_nil
  · exact .inl (List.mem_singleton.1 hopen)

/-- A document that was read first inside a record is read there once more. -/
theorem rereads_of_read {v : Json} {s : Schema} (h : read v none .empty = .ok (s, final))
    (howner : Name.isIdentifier owner.toList = true)
    (hnew : .definition owner ∉ (form v none).mentions) :
    Rereads normal (read v none) (final.under owner) s (Settled v) (Repeats final owner) := by
  have hfinal := completes_of_read h howner hnew
  have hcopy : Repeats final owner (final.under owner) := repeats_under h
  rw [read_eq_read_form] at h ⊢
  exact (form v none).rereads hfinal h (passes_empty final) (fun _ _ => id) hcopy

/-- A definition that is read a second time says what it said the first time. -/
private theorem Form.normal_eq_of_read {f : Form} {s t : Schema} {copy' : Scope}
    (h : f.read .empty = .ok (s, final)) (hname : s.name?.isSome = true)
    (hcopy : Repeats final owner copy) (hagain : f.read copy = .ok (t, copy')) :
    t.normal = s.normal := by
  cases f with
  | fault e => exact (throw_eq_ok.1 h).elim
  | plain u =>
    obtain ⟨rfl, -⟩ := pure_eq_ok.1 h
    obtain ⟨rfl, -⟩ := pure_eq_ok.1 hagain
    rfl
  | reference text space => cases (readResolved_eq_ok.1 h).1
  | array f | map f | union fs =>
    obtain ⟨_, -, rfl⟩ := bind_pure_eq_ok.1 h
    cases hname
  | definition n u =>
    obtain ⟨-, rfl, -⟩ := register_eq_ok.1 h
    obtain ⟨-, rfl, -⟩ := register_eq_ok.1 hagain
    rfl
  | record n doc fields =>
    obtain ⟨fs, scope₁, hfs, -, rfl, rfl⟩ := read_record_eq_ok.1 h
    obtain ⟨gs, copy₁, hgs, hacc, rfl, -⟩ := read_record_eq_ok.1 hagain
    have hfull := (hcopy.meaning n.full).trans (Scope.meaning_complete_self n.full _)
    exact (hacc.meaning ((fieldMentions_grows fields hgs).keeps _ _ hfull)).symm

/-- A record of another name reads the document a second time after what it knew on its own. -/
theorem ofJson?_twice_eq_ok_of_read {v : Json} {s r : Schema}
    (h : read v none .empty = .ok (s, final)) (howner : Name.isIdentifier owner.toList = true)
    (hword : primitive? owner none = none)
    (hnew : .definition owner ∉ (form v none).mentions) :
    ofJson? (twice owner v) = .ok r ↔
      ∃ t scope', read v none (final.under owner) = .ok (t, scope') ∧
        (scope'.leave owner).Accepts owner (pair owner s t) ∧ pair owner s t = r := by
  have hn : Name.Writable ⟨owner, none⟩ none :=
    Name.writable_of_isValid (by simp [Name.isValid, howner]) (by simp [hword])
  have hundotted := Name.not_mem_of_isPart (Name.isPart_of_isIdentifier howner)
  have hfirst : read v none (Scope.empty.under owner) = .ok (s, final.under owner) := by
    rw [read_eq_read_form] at h ⊢
    exact (form v none).read_under hundotted h hnew rfl
  exact ofJson?_twice_eq_ok hn hfirst

/-- A definition with a reference that is not settled conflicts with itself or is refused before
that. -/
theorem ofJson?_twice_of_not_settled {v : Json} {s : Schema} (h : ofJson? v = .ok s)
    (howner : Name.isIdentifier owner.toList = true) (hword : primitive? owner none = none)
    (hnew : .definition owner ∉ (form v none).mentions) (hname : s.name?.isSome = true)
    (hunsettled : ¬ Settled v) : ∃ e, ofJson? (twice owner v) = .error e := by
  obtain ⟨final, hread⟩ := ofJson?_eq_ok.1 h
  cases hrun : ofJson? (twice owner v) with
  | error e => exact ⟨e, rfl⟩
  | ok r =>
    obtain ⟨t, copy', ht, -⟩ := (ofJson?_twice_eq_ok_of_read hread howner hword hnew).1 hrun
    refine absurd ((rereads_of_read hread howner hnew).follows ht ?_).1 hunsettled
    have hcopy : Repeats final owner (final.under owner) := repeats_under hread
    rw [read_eq_read_form] at hread ht
    exact Form.normal_eq_of_read hread hname hcopy ht

/-- A document that is read on its own is read twice in a record of another name, with the same
schema each time, exactly when all its references are settled. If they are not, a definition
conflicts with itself or is refused before that. -/
theorem ofJson?_twice_iff_settled {v : Json} {s : Schema} (h : ofJson? v = .ok s)
    (howner : Name.isIdentifier owner.toList = true) (hword : primitive? owner none = none)
    (hnew : .definition owner ∉ (form v none).mentions) :
    ((∃ t, ofJson? (twice owner v) = .ok (pair owner s t) ∧ s.same t = true) ↔ Settled v) ∧
      (s.name?.isSome = true → ¬ Settled v → ∃ e, ofJson? (twice owner v) = .error e) := by
  obtain ⟨final, hread⟩ := ofJson?_eq_ok.1 h
  have htwice : ∀ {r}, ofJson? (twice owner v) = .ok r ↔ _ :=
    ofJson?_twice_eq_ok_of_read hread howner hword hnew
  have hagain := rereads_of_read hread howner hnew
  refine ⟨⟨?_, fun hsettled => ?_⟩, ofJson?_twice_of_not_settled h howner hword hnew⟩
  · rintro ⟨t, ht, hsame⟩
    obtain ⟨u, copy', hu, -, heq⟩ := htwice.1 ht
    obtain ⟨-, rfl⟩ := pair_inj.1 heq
    exact (hagain.follows hu ((same_iff_normal s u).1 hsame).symm).1
  · obtain ⟨t, copy', ht, heq⟩ := hagain.reads hsettled
    have hnone : copy'.lookup owner = none :=
      (hagain.follows ht heq).2.lookup_owner (completes_of_read hread howner hnew)
    refine ⟨t, htwice.2 ⟨t, copy', ht, ?_, rfl⟩, (same_iff_normal s t).2 heq.symm⟩
    intro known hknown
    cases hnone.symm.trans hknown

/-- A record in a namespace whose second field has the type of the enum in its first field. -/
theorem ofJson?_twice_iff_settled_card :
    ∃ v s t, ofJson? v = .ok s ∧ ofJson? (twice "Deck" v) = .ok (pair "Deck" s t) ∧
      s.same t = true := by
  let suit : Schema := .enum ⟨"Suit", some "a"⟩ ["HEARTS"]
  let card : Schema := .record ⟨"Card", some "a"⟩ none [⟨"suit", suit, none⟩, ⟨"trump", suit, none⟩]
  let v : Json := .obj [("type", .str "record"), ("name", .str "Card"), ("namespace", .str "a"),
    ("fields", .arr [
      .obj [("name", .str "suit"), ("type", .obj [("type", .str "enum"), ("name", .str "Suit"),
        ("symbols", .arr [.str "HEARTS"])])],
      .obj [("name", .str "trump"), ("type", .str "Suit")]])]
  have hread : ofJson? v = .ok card := by rfl
  have hiff := ofJson?_twice_iff_settled hread (by decide : Name.isIdentifier "Deck".toList = true)
    (by rfl) (by decide)
  obtain ⟨t, ht, hsame⟩ := hiff.1.2 (by decide)
  exact ⟨v, card, t, hread, ht, hsame⟩

/-- A record that refers to itself conflicts with itself: its reference is left the first time
and replaced by the record the second time. -/
theorem ofJson?_twice_node :
    ∃ v s, ofJson? v = .ok s ∧ s.name? = some ⟨"Node", none⟩ ∧
      Name.isIdentifier "Pair".toList = true ∧ primitive? "Pair" none = none ∧
      .definition "Pair" ∉ (form v none).mentions ∧
      ofJson? (twice "Pair" v) = .error (.conflictingDefinitions ⟨"Node", none⟩) := by
  refine ⟨.obj [("type", .str "record"), ("name", .str "Node"), ("fields", .arr [
      .obj [("name", .str "next"), ("type", .arr [.str "null", .str "Node"])]])],
    .record ⟨"Node", none⟩ none [⟨"next", .union [.null, .ref ⟨"Node", none⟩], none⟩], ?_⟩
  exact ⟨rfl, rfl, by decide, by decide, by decide, rfl⟩

/-- A record whose fields refer to it, and do not define its name, is refused where it stands
twice. -/
theorem ofJson?_twice_of_recursive {v : Json} {s : Schema} {n : Name} {doc : Option String}
    {fields : List (Field Form)} {text : String} {space : Option String} (h : ofJson? v = .ok s)
    (howner : Name.isIdentifier owner.toList = true) (hword : primitive? owner none = none)
    (hnew : .definition owner ∉ (form v none).mentions) (hform : form v none = .record n doc fields)
    (hrefers : .reference text space ∈ Form.fieldMentions fields)
    (hself : Form.qualified text space = n.full)
    (honce : .definition n.full ∉ Form.fieldMentions fields) :
    ∃ e, ofJson? (twice owner v) = .error e := by
  have hname : s.name?.isSome = true := by
    obtain ⟨final, hread⟩ := ofJson?_eq_ok.1 h
    rw [read_eq_read_form, hform] at hread
    obtain ⟨fs, scope', -, -, rfl, -⟩ := Form.read_record_eq_ok.1 hread
    rfl
  have hunsettled := not_settled_of_recursive hform hrefers hself honce
  exact ofJson?_twice_of_not_settled h howner hword hnew hname hunsettled

/-- The namespace of a record gets the name of an enum outside of it after the name was used. -/
example : ¬ Settled (.obj [("type", .str "record"), ("name", .str "a.Card"), ("fields", .arr [
    .obj [("name", .str "suit"), ("type", .obj [("type", .str "enum"), ("name", .str "Suit"),
      ("namespace", .str ""), ("symbols", .arr [])])],
    .obj [("name", .str "trump"), ("type", .str "Suit")],
    .obj [("name", .str "other"), ("type", .obj [("type", .str "enum"), ("name", .str "Suit"),
      ("symbols", .arr [])])]])]) := by
  decide

end Schema
end Restorable
