-- SUMMARY: The verdict on a fresh snapshot: same encoder, evolved encoder, or neither.
import Restorable.Encoder.Table
import Restorable.Proofs.Encoder.Evolution
import Restorable.Restore.Resolve

/-!
# Restoring the snapshot of an encoder

The envelope of one built-in encoder is compared with another. Versions are never in the
way, kinds have to be equal or widened, and the three outcomes at the nodes of a tree
combine to the same three outcomes for the tree.
-/
namespace Restorable
namespace Encoder

variable {κ : Type} [CustomKind κ]

/-! ## Kinds -/

theorem id_of_kind {e : Encoder κ} {k : Kind} (h : e.kind? = some k) : e.id = k.id := by
  cases e <;> cases h <;> rfl

theorem version_of_kind {e : Encoder κ} {k : Kind} (h : e.kind? = some k) :
    e.version = k.version := by
  cases e <;> cases h <;> rfl

/-! ## The checks of one node -/

variable {a b : Encoder κ} {ka kb : Kind}

/-- The current version of a kind is readable wherever the kind is. -/
private theorem checkVersion_snapshot (ha : a.kind? = some ka) (hb : b.kind? = some kb) :
    checkVersion a.snapshot b = .ok () := by
  have hversion : a.snapshot.version = ka.version := by simp [version_of_kind ha]
  have hreadable : b.readable a.snapshot.id =
      if ka = kb ∨ kb.widens ka = true then some ka.version else none := by
    cases b with
    | custom kind nested => cases hb
    | _ => simp [readable, id_of_kind ha, hb]
  unfold checkVersion
  rw [hreadable, hversion]
  by_cases h : ka = kb ∨ kb.widens ka = true
  · simp only [if_pos h, UInt32.lt_irrefl, if_false]
  · simp only [if_neg h]

theorem resolveConfig_snapshot (ha : a.kind? = some ka) (hb : b.kind? = some kb) :
    b.resolveConfig a.snapshot =
      if ka = kb then b.resolveSameKind a.snapshot
      else if kb.widens ka then .migrate
      else .incompatible (.kindChanged a.id kb.id) := by
  cases b with
  | custom kind nested => cases hb
  | _ => simp [resolveConfig, id_of_kind, ha, hb]

/-- The verdict on a snapshot, from the configurations and the nested encoders. -/
theorem resolve_snapshot_eq (ha : a.kind? = some ka) (hb : b.kind? = some kb) :
    a.snapshot.resolve b =
      match checkConfig a.snapshot b with
      | .error reason => .incompatible (.atRoot reason)
      | .ok own =>
        if b.nested.length = a.nested.length then
          match resolveAll (a.nested.map snapshot) b.nested 0 with
          | .error why => .incompatible why
          | .ok (migrates, nested) => assemble b (own || migrates) nested
        else .incompatible (.atRoot (.nestedCount a.nested.length b.id b.nested.length)) := by
  have hversion := checkVersion_snapshot ha hb
  have hcount : checkNested a.snapshot b =
      if b.nested.length = a.nested.length then .ok ()
      else .error (.nestedCount a.nested.length b.id b.nested.length) := by
    simp [checkNested]
  have hnode : a.snapshot.resolve b =
      match checkNode a.snapshot b with
      | .error reason => .incompatible (.atRoot reason)
      | .ok own =>
        match resolveAll (a.nested.map snapshot) b.nested 0 with
        | .error why => .incompatible why
        | .ok (migrates, nested) => assemble b (own || migrates) nested := by
    rw [snapshot_eq]
    rfl
  rw [hnode, checkNode, hversion, hcount]
  cases checkConfig a.snapshot b with
  | error reason => rfl
  | ok own =>
    by_cases hlen : b.nested.length = a.nested.length
    · simp only [if_pos hlen]
      rfl
    · simp only [if_neg hlen]
      rfl

/-! ## Three outcomes at a node -/

/-- The three outcomes for an encoder and the snapshot of another. -/
abbrev DecidesVerdict (a b : Encoder κ) : Prop :=
  Decides (a = b) (a.Evolves b) (a.snapshot.resolve b = .asIs) (a.snapshot.resolve b = .migrate b)
    (∃ why, a.snapshot.resolve b = .incompatible why)

/-- The three outcomes for nested encoders and snapshots. -/
abbrev DecidesNested (as bs : List (Encoder κ)) (index : Nat) : Prop :=
  Decides (as = bs) (AllEvolve as bs) (resolveAll (as.map snapshot) bs index = .ok (false, bs))
    (resolveAll (as.map snapshot) bs index = .ok (true, bs))
    (∃ why, resolveAll (as.map snapshot) bs index = .error why)

/-- Kinds that are neither equal nor widened are refused. -/
private theorem refused_of_kinds (ha : a.kind? = some ka) (hb : b.kind? = some kb) (hne : ka ≠ kb)
    (hw : kb.widens ka = false) : ∃ why, a.snapshot.resolve b = .incompatible why := by
  refine ⟨.atRoot (.kindChanged a.id kb.id), ?_⟩
  have hconfig : checkConfig a.snapshot b = .error (.kindChanged a.id kb.id) := by
    simp only [checkConfig, resolveConfig_snapshot ha hb, if_neg hne, hw, Bool.false_eq_true,
      if_false]
  rw [resolve_snapshot_eq ha hb, hconfig]

/-- Where a node itself is the same, its nested encoders decide. -/
private theorem decides_of_nested (ha : a.kind? = some ka) (hb : b.kind? = some ka)
    (hconfig : b.resolveSameKind a.snapshot = .asIs) (hlen : b.nested.length = a.nested.length)
    (hrebuild : b.rebuild b.nested = .ok b) (heq : a = b ↔ a.nested = b.nested)
    (hev : a.Evolves b ↔ AllEvolve a.nested b.nested) (h : DecidesNested a.nested b.nested 0) :
    DecidesVerdict a b := by
  have hown : checkConfig a.snapshot b = .ok false := by
    simp only [checkConfig, resolveConfig_snapshot ha hb, if_pos, hconfig]
  have hverdict := resolve_snapshot_eq ha hb
  rw [hown] at hverdict
  simp only [if_pos hlen] at hverdict
  cases h with
  | same hsame hall =>
    rw [hall] at hverdict
    exact .same (heq.2 hsame) hverdict
  | evolved hne hevolve hall =>
    rw [hall] at hverdict
    refine .evolved (fun h => hne (heq.1 h)) (hev.2 hevolve) ?_
    rw [hverdict]
    simp only [assemble, Bool.or_true, if_pos, hrebuild]
  | apart hno hall =>
    obtain ⟨why, hall⟩ := hall
    rw [hall] at hverdict
    exact .apart (fun h => hno (hev.1 h)) ⟨why, hverdict⟩

private theorem decidesNested_nil (index : Nat) : DecidesNested ([] : List (Encoder κ)) [] index :=
  .same rfl rfl

/-! ## Lists of nested encoders -/

section
variable {s : Envelope} {c : Encoder κ} {stored : List Envelope} {current : List (Encoder κ)}
  {index : Nat}

theorem resolveAll_of_asIs (h : s.resolve c = .asIs) :
    resolveAll (s :: stored) (c :: current) index =
      (resolveAll stored current (index + 1)).map fun r => (r.1, c :: r.2) := by
  simp only [resolveAll, h]
  cases resolveAll stored current (index + 1) <;> rfl

theorem resolveAll_of_migrate {e : Encoder κ} (h : s.resolve c = .migrate e) :
    resolveAll (s :: stored) (c :: current) index =
      (resolveAll stored current (index + 1)).map fun r => (true, e :: r.2) := by
  simp only [resolveAll, h]
  cases resolveAll stored current (index + 1) <;> rfl

theorem resolveAll_of_incompatible {why : Incompatibility} (h : s.resolve c = .incompatible why) :
    resolveAll (s :: stored) (c :: current) index = .error (why.under index) := by
  simp only [resolveAll, h]

end

/-- One more pair of encoders in front: the worst outcome wins. -/
private theorem decidesNested_cons {as bs : List (Encoder κ)} {index : Nat} (ha : a.Regular)
    (has : AllRegular as) (h : DecidesVerdict a b) (hrest : DecidesNested as bs (index + 1)) :
    DecidesNested (a :: as) (b :: bs) index := by
  unfold DecidesNested
  rw [List.map_cons]
  cases h with
  | same hsame hv =>
    subst hsame
    rw [resolveAll_of_asIs hv]
    cases hrest with
    | same hs hr => exact .same (by rw [hs]) (by rw [hr]; rfl)
    | evolved hne he hr =>
      refine .evolved ?_ ⟨evolves_refl a ha, he⟩ (by rw [hr]; rfl)
      intro heq
      exact hne (List.cons.inj heq).2
    | apart hno hr =>
      obtain ⟨why, hr⟩ := hr
      exact .apart (fun h => hno h.2) ⟨why, by rw [hr]; rfl⟩
  | evolved hne he hv =>
    rw [resolveAll_of_migrate hv]
    have hdiff : ¬ a :: as = b :: bs := fun heq => hne (List.cons.inj heq).1
    cases hrest with
    | same hs hr =>
      subst hs
      exact .evolved hdiff ⟨he, allEvolve_refl as has⟩ (by rw [hr]; rfl)
    | evolved _ hes hr => exact .evolved hdiff ⟨he, hes⟩ (by rw [hr]; rfl)
    | apart hno hr =>
      obtain ⟨why, hr⟩ := hr
      exact .apart (fun h => hno h.2) ⟨why, by rw [hr]; rfl⟩
  | apart hno hv =>
    obtain ⟨why, hv⟩ := hv
    exact .apart (fun h => hno h.1) ⟨_, resolveAll_of_incompatible hv⟩

/-! ## Leaves -/

/-- The verdict on a leaf is that on its configuration. -/
private theorem resolve_leaf (l m : Leaf) :
    (leaf l : Encoder κ).snapshot.resolve (leaf m : Encoder κ) =
      match checkConfig (leaf l : Encoder κ).snapshot (leaf m : Encoder κ) with
      | .error reason => .incompatible (.atRoot reason)
      | .ok own => assemble (leaf m) own [] := by
  have hl : (leaf l : Encoder κ).kind? = some l.kind := rfl
  have hm : (leaf m : Encoder κ).kind? = some m.kind := rfl
  rw [resolve_snapshot_eq hl hm]
  cases checkConfig (leaf l : Encoder κ).snapshot (leaf m : Encoder κ) with
  | error reason => rfl
  | ok own => simp only [nested, List.map_nil, resolveAll, if_pos, Bool.or_false]

private theorem decides_leaf (l m : Leaf) (hl : (leaf l : Encoder κ).Regular) :
    DecidesVerdict (leaf l : Encoder κ) (leaf m) := by
  have hverdict := @resolve_leaf κ _ l m
  have hconfig : (leaf m : Encoder κ).resolveConfig (leaf l : Encoder κ).snapshot =
      if l.kind = m.kind then m.resolve l.kind.version l.config
      else if m.kind.widens l.kind then .migrate
      else .incompatible (.kindChanged (leaf l : Encoder κ).id m.kind.id) :=
    resolveConfig_snapshot rfl rfl
  have hassemble : assemble (leaf m : Encoder κ) true [] = .migrate (leaf m) := rfl
  by_cases hk : l.kind = m.kind
  · rw [if_pos hk] at hconfig
    unfold checkConfig at hverdict
    rw [hconfig] at hverdict
    cases @Leaf.decides_resolve κ l m hk hl with
    | same heq hv =>
      rw [hv] at hverdict
      exact .same (by rw [heq]) hverdict
    | evolved hne hev hv =>
      rw [hv] at hverdict
      exact .evolved (fun h => hne (leaf.inj h)) hev (hverdict.trans hassemble)
    | apart hno hv =>
      obtain ⟨reason, hv⟩ := hv
      rw [hv] at hverdict
      exact .apart hno ⟨_, hverdict⟩
  · rw [if_neg hk] at hconfig
    have hwidens := Leaf.evolves_iff_widens hk
    cases hw : m.kind.widens l.kind with
    | true =>
      unfold checkConfig at hverdict
      rw [hconfig, hw] at hverdict
      refine .evolved ?_ (hwidens.2 hw) (hverdict.trans hassemble)
      intro h
      exact hk (congrArg Leaf.kind (leaf.inj h))
    | false =>
      refine .apart ?_ (refused_of_kinds rfl rfl hk hw)
      intro hev
      rw [hwidens.1 hev] at hw
      cases hw

/-- The kinds with nested encoders. -/
def compositeKinds : List Kind := [.array, .map, .row, .nullable, .either]

/-- A kind with nested encoders is apart from the kinds of leaves. -/
theorem kind_ne_of_composite {k : Kind} (l : Leaf) (hk : k ∈ compositeKinds) :
    l.kind ≠ k ∧ k.widens l.kind = false ∧ l.kind.widens k = false := by
  have hleaf : l.kind ∉ compositeKinds := by
    cases l <;> exact of_decide_eq_true rfl
  revert hk hleaf
  generalize l.kind = j
  cases j <;> cases k <;> decide

private theorem refused_of_leaf (ha : a.kind? = some ka) (hk : ka ∈ compositeKinds) (m : Leaf) :
    ∃ why, a.snapshot.resolve (leaf m : Encoder κ) = .incompatible why := by
  obtain ⟨hne, -, hw⟩ := kind_ne_of_composite m hk
  exact refused_of_kinds ha rfl hne.symm hw

/-! ## One and two nested encoders -/

/-- Around one nested encoder, its outcome is that of the whole. -/
private theorem decides_of_one {e f : Encoder κ} (ha : a.kind? = some ka) (hb : b.kind? = some ka)
    (hconfig : b.resolveSameKind a.snapshot = .asIs) (hna : a.nested = [e]) (hnb : b.nested = [f])
    (hrebuild : b.rebuild [f] = .ok b) (heq : a = b ↔ e = f) (hev : a.Evolves b ↔ e.Evolves f)
    (he : e.Regular) (h : DecidesVerdict e f) : DecidesVerdict a b := by
  have hnested : DecidesNested a.nested b.nested 0 := by
    rw [hna, hnb]
    exact decidesNested_cons he trivial h (decidesNested_nil 1)
  refine decides_of_nested ha hb hconfig ?_ ?_ ?_ ?_ hnested
  · rw [hna, hnb]
    rfl
  · rw [hnb]
    exact hrebuild
  · simp only [heq, hna, hnb, List.cons.injEq, and_true]
  · simp only [hev, hna, hnb, AllEvolve, and_true]

/-- Around two nested encoders, the worse outcome is that of the whole. -/
private theorem decides_of_two {e e' f f' : Encoder κ} (ha : a.kind? = some ka)
    (hb : b.kind? = some ka) (hconfig : b.resolveSameKind a.snapshot = .asIs)
    (hna : a.nested = [e, e']) (hnb : b.nested = [f, f']) (hrebuild : b.rebuild [f, f'] = .ok b)
    (heq : a = b ↔ e = f ∧ e' = f') (hev : a.Evolves b ↔ e.Evolves f ∧ e'.Evolves f')
    (he : e.Regular ∧ e'.Regular) (h : DecidesVerdict e f) (h' : DecidesVerdict e' f') :
    DecidesVerdict a b := by
  have hnested : DecidesNested a.nested b.nested 0 := by
    rw [hna, hnb]
    exact decidesNested_cons he.1 ⟨he.2, trivial⟩ h
      (decidesNested_cons he.2 trivial h' (decidesNested_nil 2))
  refine decides_of_nested ha hb hconfig ?_ ?_ ?_ ?_ hnested
  · rw [hna, hnb]
    rfl
  · rw [hnb]
    exact hrebuild
  · simp only [heq, hna, hnb, List.cons.injEq, and_true]
  · simp only [hev, hna, hnb, AllEvolve, and_true]

/-! ## Rows -/

theorem firstRename_eq_none {olds news : List String} (index : Nat)
    (hlen : olds.length = news.length) : firstRename index olds news = none ↔ olds = news := by
  induction olds generalizing news index with
  | nil =>
    cases news with
    | nil => exact iff_of_true rfl rfl
    | cons new news => cases hlen
  | cons old olds ih =>
    cases news with
    | nil => cases hlen
    | cons new news =>
      unfold firstRename
      by_cases heq : old = new
      · rw [if_pos heq, ih (index + 1) (Nat.succ.inj hlen), heq]
        exact ⟨fun h => by rw [h], fun h => (List.cons.inj h).2⟩
      · rw [if_neg heq]
        refine iff_of_false (Option.some_ne_none _) ?_
        intro h
        exact heq (List.cons.inj h).1

theorem resolveSameKind_row (names names' : List String) (es fs : List (Encoder κ)) :
    (row names' fs).resolveSameKind (row names es).snapshot =
      match firstRename 0 names names' with
      | some (index, old, new) => .incompatible (.fieldRenamed index old new)
      | none => .asIs := by
  have hnames : (row names es).snapshot.config.strings? "field_names" = some names := by
    simp [config]
  change resolveNames names' (row names es).snapshot.config = _
  unfold resolveNames
  rw [hnames]
  rfl

/-- Rows of other names are refused, by a name or by the number of fields. -/
private theorem refused_of_names {names names' : List String} {es fs : List (Encoder κ)}
    (hes : names.length = es.length) (hfs : names'.length = fs.length) (hne : names ≠ names') :
    ∃ why, (row names es).snapshot.resolve (row names' fs) = .incompatible why := by
  have ha : (row names es).kind? = some .row := rfl
  have hb : (row names' fs).kind? = some .row := rfl
  have hverdict := resolve_snapshot_eq ha hb
  have hconfig := resolveConfig_snapshot ha hb
  rw [if_pos rfl, resolveSameKind_row] at hconfig
  unfold checkConfig at hverdict
  cases hrename : firstRename 0 names names' with
  | some rename =>
    obtain ⟨index, old, new⟩ := rename
    rw [hconfig, hrename] at hverdict
    exact ⟨_, hverdict⟩
  | none =>
    have hlen : ¬ (row names' fs).nested.length = (row names es).nested.length := by
      intro hlen
      have hsame : names.length = names'.length := by
        rw [hes, hfs]
        exact hlen.symm
      exact hne ((firstRename_eq_none 0 hsame).1 hrename)
    rw [hconfig, hrename] at hverdict
    simp only [if_neg hlen] at hverdict
    exact ⟨_, hverdict⟩

/-! ## Trees -/

mutual

/-- One of the three outcomes holds for every two regular encoders. -/
theorem decides_verdict : (a b : Encoder κ) → a.Regular → b.Regular → DecidesVerdict a b
  | .leaf l, b, ha, hb => by
    cases b with
    | leaf m => exact decides_leaf l m ha
    | custom kind nested => exact hb.elim
    | _ =>
      refine .apart (fun h => h) (refused_of_kinds rfl rfl (kind_ne_of_composite l ?_).1
        (kind_ne_of_composite l ?_).2.1)
      all_goals decide
  | .array e, b, ha, hb => by
    cases b with
    | array f =>
      have h := decides_verdict e f ha hb
      refine decides_of_one (e := e) (f := f) rfl rfl rfl rfl rfl rfl ?_ ?_ ha h
      · simp only [array.injEq]
      · simp only [Evolves]
    | leaf m => exact .apart (fun h => h) (refused_of_leaf rfl (by decide) m)
    | custom kind nested => exact hb.elim
    | _ => exact .apart (fun h => h) (refused_of_kinds rfl rfl (by decide) rfl)
  | .nullable e, b, ha, hb => by
    cases b with
    | nullable f =>
      have h := decides_verdict e f ha hb
      refine decides_of_one (e := e) (f := f) rfl rfl rfl rfl rfl rfl ?_ ?_ ha h
      · simp only [nullable.injEq]
      · simp only [Evolves]
    | leaf m => exact .apart (fun h => h) (refused_of_leaf rfl (by decide) m)
    | custom kind nested => exact hb.elim
    | _ => exact .apart (fun h => h) (refused_of_kinds rfl rfl (by decide) rfl)
  | .map k v, b, ha, hb => by
    cases b with
    | map l w =>
      have hl := decides_verdict k l ha.1 hb.1
      have hw := decides_verdict v w ha.2 hb.2
      refine decides_of_two (e := k) (f := l) rfl rfl rfl rfl rfl rfl ?_ ?_ ha hl hw
      · simp only [map.injEq]
      · simp only [Evolves]
    | leaf m => exact .apart (fun h => h) (refused_of_leaf rfl (by decide) m)
    | custom kind nested => exact hb.elim
    | _ => exact .apart (fun h => h) (refused_of_kinds rfl rfl (by decide) rfl)
  | .either k v, b, ha, hb => by
    cases b with
    | either l w =>
      have hl := decides_verdict k l ha.1 hb.1
      have hw := decides_verdict v w ha.2 hb.2
      refine decides_of_two (e := k) (f := l) rfl rfl rfl rfl rfl rfl ?_ ?_ ha hl hw
      · simp only [either.injEq]
      · simp only [Evolves]
    | leaf m => exact .apart (fun h => h) (refused_of_leaf rfl (by decide) m)
    | custom kind nested => exact hb.elim
    | _ => exact .apart (fun h => h) (refused_of_kinds rfl rfl (by decide) rfl)
  | .row names es, b, ha, hb => by
    cases b with
    | row names' fs =>
      obtain ⟨hes, haes⟩ := ha
      obtain ⟨hfs, hbfs⟩ := hb
      by_cases hnames : names = names'
      · subst hnames
        have hlen : es.length = fs.length := by rw [← hes, hfs]
        have h := decides_nested es fs 0 haes hbfs hlen
        have hconfig : (row names fs).resolveSameKind (row names es).snapshot = .asIs := by
          rw [resolveSameKind_row, (firstRename_eq_none 0 rfl).2 rfl]
        have hrebuild : (row names fs).rebuild fs = .ok (row names fs) := by
          simp only [rebuild, if_pos hfs.symm]
        refine decides_of_nested rfl rfl hconfig hlen.symm hrebuild ?_ ?_ h
        · simp only [row.injEq, nested, true_and]
        · simp only [Evolves, nested, true_and]
      · exact .apart (fun h => hnames h.1) (refused_of_names hes hfs hnames)
    | leaf m => exact .apart (fun h => h) (refused_of_leaf rfl (by decide) m)
    | custom kind nested => exact hb.elim
    | _ => exact .apart (fun h => h) (refused_of_kinds rfl rfl (by decide) rfl)
  | .custom _ _, b, ha, hb => ha.elim

theorem decides_nested : (as bs : List (Encoder κ)) → (index : Nat) → AllRegular as →
    AllRegular bs → as.length = bs.length → DecidesNested as bs index
  | [], [], index, _, _, _ => decidesNested_nil index
  | a :: as, b :: bs, index, ha, hb, hlen =>
    decidesNested_cons ha.1 ha.2 (decides_verdict a b ha.1 hb.1)
      (decides_nested as bs (index + 1) ha.2 hb.2 (Nat.succ.inj hlen))

end

/-- The snapshot of an encoder can be read as it is by the same encoder only, after a
migration by those that it evolves into, and by no other. -/
theorem resolve_snapshot_iff (a b : Encoder κ) (ha : a.Regular) (hb : b.Regular) :
    (resolve false a.snapshot b = .asIs ↔ a = b) ∧
      (resolve false a.snapshot b = .migrate b ↔ a.Evolves b ∧ a ≠ b) ∧
      ((∃ why, resolve false a.snapshot b = .incompatible why) ↔ ¬ a.Evolves b) := by
  have hverdict : resolve false a.snapshot b = a.snapshot.resolve b := rfl
  rw [hverdict]
  cases decides_verdict a b ha hb with
  | same heq hv =>
    have hev : a.Evolves b := heq ▸ evolves_refl a ha
    rw [hv]
    refine ⟨iff_of_true rfl heq, ?_, ?_⟩
    · exact iff_of_false (fun h => nomatch h) fun h => h.2 heq
    · exact iff_of_false (fun h => nomatch h) fun h => h hev
  | evolved hne hev hv =>
    rw [hv]
    refine ⟨?_, iff_of_true rfl ⟨hev, hne⟩, ?_⟩
    · exact iff_of_false (fun h => nomatch h) hne
    · exact iff_of_false (fun h => nomatch h) fun h => h hev
  | apart hno hv =>
    obtain ⟨why, hv⟩ := hv
    rw [hv]
    refine ⟨?_, ?_, iff_of_true ⟨why, rfl⟩ hno⟩
    · refine iff_of_false (fun h => nomatch h) ?_
      rintro rfl
      exact hno (evolves_refl a ha)
    · exact iff_of_false (fun h => nomatch h) fun h => hno h.1

/-- A row with wider leaves reads the state of a narrower one, but not the reverse. -/
theorem resolve_snapshot_wider :
    let a : Encoder TableKind :=
      .row ["id", "price"] [.leaf .int, .nullable (.leaf (.decimal 10 2))]
    let b : Encoder TableKind :=
      .row ["id", "price"] [.leaf .long, .nullable (.leaf (.decimal 12 2))]
    a.Regular ∧ b.Regular ∧ resolve false a.snapshot b = .migrate b ∧
      ∃ why, resolve false b.snapshot a = .incompatible why := by
  intro a b
  have ha : a.Regular := ⟨rfl, trivial, trivial, trivial⟩
  have hb : b.Regular := ⟨rfl, trivial, trivial, trivial⟩
  have hev : a.Evolves b := ⟨rfl, .intLong, .decimal 2 (by decide), trivial⟩
  have hne : a ≠ b := fun h => nomatch (row.inj h).2
  have hback : ¬ b.Evolves a := by
    rintro ⟨-, h, -⟩
    cases h
  refine ⟨ha, hb, ?_, ?_⟩
  · exact (resolve_snapshot_iff a b ha hb).2.1.2 ⟨hev, hne⟩
  · exact (resolve_snapshot_iff b a hb ha).2.2.2 hback

end Encoder
end Restorable
