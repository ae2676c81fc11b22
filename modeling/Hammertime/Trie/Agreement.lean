import Hammertime.Trie.BinarySpec

/-!
# Both tries are the HOT set

The two tries under the same calls. Each represents the set that the calls make (`Represents`), each
step of either replies as the set does and keeps that, so by simulation every run does. From the
representation, every query of either trie is the same function of the set.
-/

namespace Hammertime.Trie

open Bits

/-- A mutating call of a trie with the given methods: what it returns or raises, and the trie after
it. A call that raises leaves the trie as it was. -/
def callWith {σ : Type*} (add remove : σ → Address → Except TrieError (Bool × σ)) (clear : σ → σ)
    (t : σ) : Call → Reply × σ
  | .addHotIp a =>
    match add t a with
    | .ok (changed, t') => (.ok (some changed), t')
    | .error e => (.error e, t)
  | .removeHotIp a =>
    match remove t a with
    | .ok (changed, t') => (.ok (some changed), t')
    | .error e => (.error e, t)
  | .clear => (.ok none, clear t)

/-- The mutating calls of the Patricia trie. -/
def PatriciaTrie.call : PatriciaTrie → Call → Reply × PatriciaTrie :=
  callWith PatriciaTrie.addHotIp PatriciaTrie.removeHotIp PatriciaTrie.clear

/-- The mutating calls of the reference trie. -/
def BinaryTrie.call : BinaryTrie → Call → Reply × BinaryTrie :=
  callWith BinaryTrie.addHotIp BinaryTrie.removeHotIp BinaryTrie.clear

/-- The errors that the methods document: an argument of the other family, and a `min_length` out of
range. -/
def Documented : TrieError → Prop
  | .familyMismatch _ _ => True
  | .minLength _ _ => True
  | _ => False

/-- A method returns, or raises a documented error. -/
def Raises {α : Type*} (r : Except TrieError α) : Prop := ∀ e, r = .error e → Documented e

/-- The Patricia trie stands for the set. -/
def PatriciaTrie.Represents (family : AddressFamily) (t : PatriciaTrie) (H : Finset Address) : Prop :=
  t.family = family ∧ (∀ a ∈ H, a.family = family) ∧
    ∃ o, Intact t o ∧ treeLeaves o = HotSet.values H

/-- The reference trie stands for the set. -/
def BinaryTrie.Represents (family : AddressFamily) (t : BinaryTrie) (H : Finset Address) : Prop :=
  t.family = family ∧ (∀ a ∈ H, a.family = family) ∧ t.Intact ∧ t.numbers = HotSet.values H

section Steps

variable {family : AddressFamily} {H : Finset Address} {a : Address}

theorem values_insert {L : List ℕ} (hL : L.Pairwise (· < ·))
    (hmem : ∀ x, x ∈ L ↔ x = a.value ∨ x ∈ HotSet.values H) : L = HotSet.values (insert a H) := by
  refine HotSet.eq_values hL (fun v => ?_)
  rw [hmem, HotSet.mem_values]
  constructor
  · rintro (rfl | ⟨b, hb, rfl⟩)
    · exact ⟨a, Finset.mem_insert_self _ _, rfl⟩
    · exact ⟨b, Finset.mem_insert_of_mem hb, rfl⟩
  · rintro ⟨b, hb, rfl⟩
    rcases Finset.mem_insert.1 hb with rfl | hb
    · exact .inl rfl
    · exact .inr ⟨b, hb, rfl⟩

theorem values_erase (hH : ∀ b ∈ H, b.family = family) (ha : a.family = family) {L : List ℕ}
    (hL : L.Pairwise (· < ·)) (hmem : ∀ x, x ∈ L ↔ x ≠ a.value ∧ x ∈ HotSet.values H) :
    L = HotSet.values (H.erase a) := by
  refine HotSet.eq_values hL (fun v => ?_)
  rw [hmem, HotSet.mem_values]
  constructor
  · rintro ⟨hne, b, hb, rfl⟩
    exact ⟨b, Finset.mem_erase.2 ⟨fun he => hne (by rw [he]), hb⟩, rfl⟩
  · rintro ⟨b, hb, rfl⟩
    obtain ⟨hne, hb⟩ := Finset.mem_erase.1 hb
    refine ⟨fun he => hne (Address.ext ?_ he), b, hb, rfl⟩
    rw [hH b hb, ha]

theorem family_insert (hH : ∀ b ∈ H, b.family = family) (ha : a.family = family) :
    ∀ b ∈ insert a H, b.family = family := by
  intro b hb
  rcases Finset.mem_insert.1 hb with rfl | hb
  · exact ha
  · exact hH b hb

theorem family_erase (hH : ∀ b ∈ H, b.family = family) : ∀ b ∈ H.erase a, b.family = family :=
  fun b hb => hH b (Finset.mem_of_mem_erase hb)

/-- A trie whose methods do to the set what their names say takes every call as the set does. -/
theorem callWith_refines {σ : Type*} {add remove : σ → Address → Except TrieError (Bool × σ)}
    {clear : σ → σ} {R : σ → Finset Address → Prop}
    (hadd : ∀ t H a, R t H → a.family = family →
      ∃ t', add t a = .ok (decide (a ∉ H), t') ∧ R t' (insert a H))
    (hremove : ∀ t H a, R t H → a.family = family →
      ∃ t', remove t a = .ok (decide (a ∈ H), t') ∧ R t' (H.erase a))
    (hclear : ∀ t H, R t H → R (clear t) ∅)
    (hforeign : ∀ t H a, R t H → a.family ≠ family →
      add t a = .error (.familyMismatch family a.family) ∧
        remove t a = .error (.familyMismatch family a.family))
    (t : σ) (H : Finset Address) (c : Call) (h : R t H) :
    (callWith add remove clear t c).1 = (HotSet.apply family H c).1 ∧
      R (callWith add remove clear t c).2 (HotSet.apply family H c).2 := by
  cases c with
  | addHotIp a =>
    by_cases hfam : a.family = family
    · obtain ⟨t', hrun, hnext⟩ := hadd t H a h hfam
      simp only [callWith, HotSet.apply, hrun, if_pos hfam]
      exact ⟨trivial, hnext⟩
    · simp only [callWith, HotSet.apply, (hforeign t H a h hfam).1, if_neg hfam]
      exact ⟨trivial, h⟩
  | removeHotIp a =>
    by_cases hfam : a.family = family
    · obtain ⟨t', hrun, hnext⟩ := hremove t H a h hfam
      simp only [callWith, HotSet.apply, hrun, if_pos hfam]
      exact ⟨trivial, hnext⟩
    · simp only [callWith, HotSet.apply, (hforeign t H a h hfam).2, if_neg hfam]
      exact ⟨trivial, h⟩
  | clear => exact ⟨rfl, hclear t H h⟩

namespace PatriciaTrie

variable {t : PatriciaTrie}

theorem represents_new (family : AddressFamily) : (new family).Represents family ∅ :=
  ⟨rfl, by simp, none, intact_empty family, by simp [HotSet.values]⟩

theorem Represents.contains (h : t.Represents family H) (hfam : a.family = family) :
    t.contains a = .ok (decide (a ∈ H)) := by
  obtain ⟨rfl, hH, o, hi, hvals⟩ := h
  rw [hi.contains_eq hfam, hvals]
  exact congrArg Except.ok (decide_eq_decide.mpr (HotSet.value_mem_values hH hfam))

/-- A redundant add changes nothing. -/
theorem Represents.addHotIp_hot (h : t.Represents family H) (hin : a ∈ H) :
    t.addHotIp a = .ok (false, t) := by
  have hfam := h.2.1 a hin
  have hcontains := h.contains hfam
  rw [decide_eq_true hin] at hcontains
  obtain ⟨rfl, -⟩ := h
  simp [PatriciaTrie.addHotIp, checkFamily, hfam, hcontains, bind, Except.bind, pure, Except.pure]

/-- A redundant remove changes nothing. -/
theorem Represents.removeHotIp_cold (h : t.Represents family H) (hfam : a.family = family)
    (hnot : a ∉ H) : t.removeHotIp a = .ok (false, t) := by
  have hcontains := h.contains hfam
  rw [decide_eq_false hnot] at hcontains
  obtain ⟨rfl, -⟩ := h
  simp [PatriciaTrie.removeHotIp, checkFamily, hfam, hcontains, bind, Except.bind, pure, Except.pure]

/-- `add_hot_ip` returns whether the address was not in the set, and adds it. -/
theorem Represents.addHotIp (h : t.Represents family H) (hfam : a.family = family) :
    ∃ t', t.addHotIp a = .ok (decide (a ∉ H), t') ∧ t'.Represents family (insert a H) := by
  by_cases hin : a ∈ H
  · refine ⟨t, ?_, ?_⟩
    · rw [h.addHotIp_hot hin, decide_eq_false (not_not.mpr hin)]
    · rw [Finset.insert_eq_of_mem hin]
      exact h
  · obtain ⟨rfl, hH, o, hi, hvals⟩ := h
    have hnew : a.value ∉ treeLeaves o := by
      rw [hvals]
      exact fun hv => hin ((HotSet.value_mem_values hH hfam).1 hv)
    obtain ⟨t', o', hadd, hfam', hi', hmem⟩ := hi.addHotIp_new hfam hnew
    rw [hvals] at hmem
    refine ⟨t', ?_, hfam', family_insert hH hfam, o', hi', values_insert hi'.leaves_sorted hmem⟩
    rw [hadd, decide_eq_true hin]

/-- `remove_hot_ip` returns whether the address was in the set, and removes it. -/
theorem Represents.removeHotIp (h : t.Represents family H) (hfam : a.family = family) :
    ∃ t', t.removeHotIp a = .ok (decide (a ∈ H), t') ∧ t'.Represents family (H.erase a) := by
  by_cases hin : a ∈ H
  · obtain ⟨rfl, hH, o, hi, hvals⟩ := h
    have hhot : a.value ∈ treeLeaves o := by
      rw [hvals]
      exact (HotSet.value_mem_values hH hfam).2 hin
    obtain ⟨t', o', hrem, hfam', hi', hmem⟩ := hi.removeHotIp_hot hfam hhot
    rw [hvals] at hmem
    refine ⟨t', ?_, hfam', family_erase hH, o', hi', values_erase hH hfam hi'.leaves_sorted hmem⟩
    rw [hrem, decide_eq_true hin]
  · refine ⟨t, ?_, ?_⟩
    · rw [h.removeHotIp_cold hfam hin, decide_eq_false hin]
    · rw [Finset.erase_eq_of_notMem hin]
      exact h

/-- One call on the Patricia trie is one call on the set. -/
theorem Represents.call (h : t.Represents family H) (c : Call) :
    (t.call c).1 = (HotSet.apply family H c).1 ∧
      (t.call c).2.Represents family (HotSet.apply family H c).2 := by
  refine callWith_refines (R := PatriciaTrie.Represents family) (fun t H a h hfam => h.addHotIp hfam)
    (fun t H a h hfam => h.removeHotIp hfam) ?_ ?_ t H c h
  · rintro t H ⟨rfl, -⟩
    exact represents_new t.family
  · rintro t H a ⟨rfl, -⟩ hfam
    simp [PatriciaTrie.addHotIp, PatriciaTrie.removeHotIp, checkFamily, hfam, bind, Except.bind]

end PatriciaTrie

namespace BinaryTrie

variable {t : BinaryTrie}

theorem represents_new (family : AddressFamily) : (new family).Represents family ∅ :=
  ⟨rfl, by simp, TrieNode.sound_absent _, by simp [HotSet.values, numbers, new]⟩

theorem Represents.addHotIp (h : t.Represents family H) (hfam : a.family = family) :
    ∃ t', t.addHotIp a = .ok (decide (a ∉ H), t') ∧ t'.Represents family (insert a H) := by
  obtain ⟨rfl, hH, hi, hvals⟩ := h
  have hval := HotSet.value_mem_values hH hfam
  by_cases hin : a ∈ H
  · have hcontains := hi.contains_eq hfam
    rw [hvals, decide_eq_true (hval.2 hin)] at hcontains
    refine ⟨t, ?_, rfl, family_insert hH hfam, hi, ?_⟩
    · simp [BinaryTrie.addHotIp, checkFamily, hfam, hcontains, hin, bind, Except.bind, pure,
        Except.pure]
    · rw [Finset.insert_eq_of_mem hin, hvals]
  · have hnew : a.value ∉ t.numbers := by
      rw [hvals]
      exact fun hv => hin (hval.1 hv)
    obtain ⟨t', hadd, hfam', hi', hmem⟩ := hi.addHotIp_new hfam hnew
    rw [hvals] at hmem
    refine ⟨t', ?_, hfam', family_insert hH hfam, hi',
      values_insert (TrieNode.leaves_sorted _ _) hmem⟩
    rw [hadd, decide_eq_true hin]

theorem Represents.removeHotIp (h : t.Represents family H) (hfam : a.family = family) :
    ∃ t', t.removeHotIp a = .ok (decide (a ∈ H), t') ∧ t'.Represents family (H.erase a) := by
  obtain ⟨rfl, hH, hi, hvals⟩ := h
  have hval := HotSet.value_mem_values hH hfam
  by_cases hin : a ∈ H
  · have hhot : a.value ∈ t.numbers := by
      rw [hvals]
      exact hval.2 hin
    obtain ⟨t', hrem, hfam', hi', hmem⟩ := hi.removeHotIp_hot hfam hhot
    rw [hvals] at hmem
    refine ⟨t', ?_, hfam', family_erase hH, hi',
      values_erase hH hfam (TrieNode.leaves_sorted _ _) hmem⟩
    rw [hrem, decide_eq_true hin]
  · have hcontains := hi.contains_eq hfam
    rw [hvals, decide_eq_false (fun hv => hin (hval.1 hv))] at hcontains
    refine ⟨t, ?_, rfl, family_erase hH, hi, ?_⟩
    · simp [BinaryTrie.removeHotIp, checkFamily, hfam, hcontains, hin, bind, Except.bind, pure,
        Except.pure]
    · rw [Finset.erase_eq_of_notMem hin, hvals]

/-- One call on the reference trie is one call on the set. -/
theorem Represents.call (h : t.Represents family H) (c : Call) :
    (t.call c).1 = (HotSet.apply family H c).1 ∧
      (t.call c).2.Represents family (HotSet.apply family H c).2 := by
  refine callWith_refines (R := BinaryTrie.Represents family) (fun t H a h hfam => h.addHotIp hfam)
    (fun t H a h hfam => h.removeHotIp hfam) ?_ ?_ t H c h
  · rintro t H ⟨rfl, -⟩
    exact ⟨rfl, by simp, TrieNode.sound_absent _, by simp [HotSet.values, numbers, clear]⟩
  · rintro t H a ⟨rfl, -⟩ hfam
    simp [BinaryTrie.addHotIp, BinaryTrie.removeHotIp, checkFamily, hfam, bind, Except.bind]

end BinaryTrie

end Steps

/-! ## Runs -/

/-- The replies of a mathematical set to a list of calls, and the set after the last. -/
def HotSet.run (family : AddressFamily) (calls : List Call) : List Reply × Finset Address :=
  runCalls (HotSet.apply family) ∅ calls

/-- The replies of a Patricia trie, from empty, and the trie after the last call. -/
def PatriciaTrie.run (family : AddressFamily) (calls : List Call) : List Reply × PatriciaTrie :=
  runCalls PatriciaTrie.call (PatriciaTrie.new family) calls

/-- The replies of a reference trie, from empty, and the trie after the last call. -/
def BinaryTrie.run (family : AddressFamily) (calls : List Call) : List Reply × BinaryTrie :=
  runCalls BinaryTrie.call (BinaryTrie.new family) calls

section Runs

variable {family : AddressFamily} {H : Finset Address} {a : Address} {calls : List Call}

theorem patricia_run_represents (family : AddressFamily) (calls : List Call) :
    (PatriciaTrie.run family calls).1 = (HotSet.run family calls).1 ∧
      (PatriciaTrie.run family calls).2.Represents family (HotSet.run family calls).2 :=
  runCalls_simulation (R := PatriciaTrie.Represents family)
    (fun _ _ c h => PatriciaTrie.Represents.call h c) calls (PatriciaTrie.represents_new family)

theorem binary_run_represents (family : AddressFamily) (calls : List Call) :
    (BinaryTrie.run family calls).1 = (HotSet.run family calls).1 ∧
      (BinaryTrie.run family calls).2.Represents family (HotSet.run family calls).2 :=
  runCalls_simulation (R := BinaryTrie.Represents family)
    (fun _ _ c h => BinaryTrie.Represents.call h c) calls (BinaryTrie.represents_new family)

/-- A set refuses a call only for an address of the other family. -/
theorem hotSet_reply_documented (H : Finset Address) (c : Call) :
    Raises (HotSet.apply family H c).1 := by
  intro e he
  cases c with
  | addHotIp a =>
    simp only [HotSet.apply] at he
    split_ifs at he
    obtain rfl := Except.error.inj he
    trivial
  | removeHotIp a =>
    simp only [HotSet.apply] at he
    split_ifs at he
    obtain rfl := Except.error.inj he
    trivial
  | clear => cases he

theorem hotSet_replies_documented (H : Finset Address) :
    ∀ r ∈ (runCalls (HotSet.apply family) H calls).1, Raises r := by
  induction calls generalizing H with
  | nil => simp [runCalls]
  | cons c calls ih =>
    intro r hr
    rcases List.mem_cons.1 hr with rfl | hr
    · exact hotSet_reply_documented H c
    · exact ih _ r hr

end Runs

/-! ## Agreement -/

/-- Two calls give the same result, and an error among them is a documented one. -/
def Agree {α : Type*} (r s : Except TrieError α) : Prop := r = s ∧ Raises r

section Agree

variable {family : AddressFamily} {H : Finset Address} {p : PatriciaTrie} {b : BinaryTrie}

theorem agree_ok {α : Type*} {r s : Except TrieError α} {x : α} (hr : r = .ok x) (hs : s = .ok x) :
    Agree r s := by
  refine ⟨hr.trans hs.symm, ?_⟩
  intro e he
  rw [hr] at he
  cases he

theorem agree_error {α : Type*} {r s : Except TrieError α} {e : TrieError} (he : Documented e)
    (hr : r = .error e) (hs : s = .error e) : Agree r s := by
  refine ⟨hr.trans hs.symm, ?_⟩
  intro e' he'
  rw [hr, Except.error.injEq] at he'
  exact he' ▸ he

theorem agree_contains (hp : p.Represents family H) (hb : b.Represents family H) (a : Address) :
    Agree (p.contains a) (b.contains a) := by
  obtain ⟨rfl, -, o, hi, hv⟩ := hp
  obtain ⟨hf, -, hi', hv'⟩ := hb
  by_cases hfam : a.family = p.family
  · have h1 := hi.contains_eq hfam
    have h2 := hi'.contains_eq (hfam.trans hf.symm)
    rw [hv] at h1
    rw [hv'] at h2
    exact agree_ok h1 h2
  · refine agree_error (e := .familyMismatch p.family a.family) trivial ?_ ?_
    · simp [PatriciaTrie.contains, PatriciaTrie.checkFamily, hfam, bind, Except.bind]
    · simp [BinaryTrie.contains, BinaryTrie.checkFamily, hf, hfam, bind, Except.bind]

theorem agree_hotCount (hp : p.Represents family H) (hb : b.Represents family H) (q : Prefix) :
    Agree (p.hotCount q) (b.hotCount q) := by
  obtain ⟨rfl, -, o, hi, hv⟩ := hp
  obtain ⟨hf, -, hi', hv'⟩ := hb
  by_cases hfam : q.family = p.family
  · have h1 := hi.hotCount_eq hfam
    have h2 := hi'.hotCount_eq (hfam.trans hf.symm)
    rw [hv, PatriciaTrie.bitLength] at h1
    rw [hv', BinaryTrie.bitLength, hf] at h2
    exact agree_ok h1 h2
  · refine agree_error (e := .familyMismatch p.family q.family) trivial ?_ ?_
    · simp [PatriciaTrie.hotCount, PatriciaTrie.checkFamily, hfam, bind, Except.bind]
    · simp [BinaryTrie.hotCount, BinaryTrie.checkFamily, hf, hfam, bind, Except.bind]

theorem agree_ancestorCounts (hp : p.Represents family H) (hb : b.Represents family H) (a : Address)
    (m : ℤ) : Agree (p.ancestorCounts a m) (b.ancestorCounts a m) := by
  obtain ⟨rfl, -, o, hi, hv⟩ := hp
  obtain ⟨hf, -, hi', hv'⟩ := hb
  by_cases hfam : a.family = p.family
  · by_cases hm : 0 ≤ m ∧ m ≤ p.family.bitLength
    · obtain ⟨m, rfl⟩ := Int.eq_ofNat_of_zero_le hm.1
      have hm' : m ≤ p.family.bitLength := by exact_mod_cast hm.2
      have h1 := hi.ancestorCounts_eq hfam hm'
      have h2 := hi'.ancestorCounts_eq (m := m) (hfam.trans hf.symm) (by
        rw [BinaryTrie.bitLength, hf]
        exact hm')
      rw [hv] at h1
      rw [hv', hf] at h2
      exact agree_ok h1 h2
    · refine agree_error (e := .minLength p.family m) trivial ?_ ?_
      · simp [PatriciaTrie.ancestorCounts, PatriciaTrie.checkFamily, PatriciaTrie.checkMinLength,
          hfam, PatriciaTrie.bitLength, hm, bind, Except.bind]
      · simp [BinaryTrie.ancestorCounts, BinaryTrie.checkFamily, BinaryTrie.checkMinLength, hfam, hf,
          BinaryTrie.bitLength, hm, bind, Except.bind]
  · refine agree_error (e := .familyMismatch p.family a.family) trivial ?_ ?_
    · simp [PatriciaTrie.ancestorCounts, PatriciaTrie.checkFamily, hfam, bind, Except.bind]
    · simp [BinaryTrie.ancestorCounts, BinaryTrie.checkFamily, hf, hfam, bind, Except.bind]

theorem agree_longestMatchingPrefix (hp : p.Represents family H) (hb : b.Represents family H)
    (a : Address) : Agree (p.longestMatchingPrefix a) (b.longestMatchingPrefix a) := by
  obtain ⟨rfl, -, o, hi, hv⟩ := hp
  obtain ⟨hf, -, hi', hv'⟩ := hb
  by_cases hfam : a.family = p.family
  · have h1 := hi.longestMatchingPrefix_eq hfam
    have h2 := hi'.longestMatchingPrefix_eq (hfam.trans hf.symm)
    rw [hv] at h1
    rw [hv', hf] at h2
    exact agree_ok h1 h2
  · refine agree_error (e := .familyMismatch p.family a.family) trivial ?_ ?_
    · simp [PatriciaTrie.longestMatchingPrefix, PatriciaTrie.checkFamily, hfam, bind, Except.bind]
    · simp [BinaryTrie.longestMatchingPrefix, BinaryTrie.checkFamily, hf, hfam, bind, Except.bind]

theorem agree_iterPrefixCounts (hp : p.Represents family H) (hb : b.Represents family H) (m : ℤ) :
    Agree (p.iterPrefixCounts m) (b.iterPrefixCounts m) := by
  obtain ⟨rfl, -, o, hi, hv⟩ := hp
  obtain ⟨hf, -, hi', hv'⟩ := hb
  by_cases hm : 0 ≤ m ∧ m ≤ p.family.bitLength
  · obtain ⟨m, rfl⟩ := Int.eq_ofNat_of_zero_le hm.1
    have hm' : m ≤ p.family.bitLength := by exact_mod_cast hm.2
    obtain ⟨ps, h1, hps⟩ := hi.iterPrefixCounts_spec hm'
    obtain ⟨qs, h2, hqs⟩ := hi'.iterPrefixCounts_spec (m := m) (by
      rw [BinaryTrie.bitLength, hf]
      exact hm')
    rw [hv] at hps
    rw [hv', hf] at hqs
    obtain rfl := hps.unique hqs
    exact agree_ok h1 h2
  · refine agree_error (e := .minLength p.family m) trivial ?_ ?_
    · simp [PatriciaTrie.iterPrefixCounts, PatriciaTrie.checkMinLength, PatriciaTrie.bitLength, hm,
        bind, Except.bind]
    · simp [BinaryTrie.iterPrefixCounts, BinaryTrie.checkMinLength, BinaryTrie.bitLength, hf, hm,
        bind, Except.bind]

/-- Addresses of one family with the same numbers are the same. -/
theorem addresses_eq {as bs : List Address} (ha : ∀ a ∈ as, a.family = family)
    (hb : ∀ b ∈ bs, b.family = family) (h : as.map Address.value = bs.map Address.value) :
    as = bs := by
  induction as generalizing bs with
  | nil => exact (List.map_eq_nil_iff.1 h.symm).symm
  | cons a as ih =>
    cases bs with
    | nil => cases h
    | cons b bs =>
      simp only [List.map_cons, List.cons.injEq] at h
      have hab : a = b :=
        Address.ext ((ha a List.mem_cons_self).trans (hb b List.mem_cons_self).symm) h.1
      rw [hab, ih (fun x hx => ha x (List.mem_cons_of_mem _ hx))
        (fun x hx => hb x (List.mem_cons_of_mem _ hx)) h.2]

theorem agree_iterHotAddresses (hp : p.Represents family H) (hb : b.Represents family H) :
    Agree p.iterHotAddresses b.iterHotAddresses := by
  obtain ⟨rfl, -, o, hi, hv⟩ := hp
  obtain ⟨hf, -, hi', hv'⟩ := hb
  obtain ⟨as, h1, hval, hfam⟩ := hi.iterHotAddresses_spec
  obtain ⟨bs, h2, hval', hfam'⟩ := hi'.iterHotAddresses_spec
  rw [hv] at hval
  rw [hv', ← hval] at hval'
  have hsame := addresses_eq hfam (fun b hb => (hfam' b hb).trans hf) hval'.symm
  exact agree_ok h1 (hsame ▸ h2)

end Agree

/-- Both tries under the same calls, from empty: they reply alike to every call, and after the last
they agree on every query. The calls are arbitrary, so this holds after each of them. -/
theorem patricia_agrees_binary (family : AddressFamily) (calls : List Call) :
    (PatriciaTrie.run family calls).1 = (BinaryTrie.run family calls).1 ∧
      (∀ r ∈ (PatriciaTrie.run family calls).1, Raises r) ∧
      (PatriciaTrie.run family calls).2.hotIpCount =
        .ok (BinaryTrie.run family calls).2.hotIpCount ∧
      (∀ a, Agree ((PatriciaTrie.run family calls).2.contains a)
        ((BinaryTrie.run family calls).2.contains a)) ∧
      (∀ q, Agree ((PatriciaTrie.run family calls).2.hotCount q)
        ((BinaryTrie.run family calls).2.hotCount q)) ∧
      (∀ a m, Agree ((PatriciaTrie.run family calls).2.ancestorCounts a m)
        ((BinaryTrie.run family calls).2.ancestorCounts a m)) ∧
      (∀ a, Agree ((PatriciaTrie.run family calls).2.longestMatchingPrefix a)
        ((BinaryTrie.run family calls).2.longestMatchingPrefix a)) ∧
      (∀ m, Agree ((PatriciaTrie.run family calls).2.iterPrefixCounts m)
        ((BinaryTrie.run family calls).2.iterPrefixCounts m)) ∧
      Agree (PatriciaTrie.run family calls).2.iterHotAddresses
        (BinaryTrie.run family calls).2.iterHotAddresses := by
  obtain ⟨hreply, hp⟩ := patricia_run_represents family calls
  obtain ⟨hreply', hb⟩ := binary_run_represents family calls
  refine ⟨hreply.trans hreply'.symm, ?_, ?_, agree_contains hp hb, agree_hotCount hp hb,
    agree_ancestorCounts hp hb, agree_longestMatchingPrefix hp hb, agree_iterPrefixCounts hp hb,
    agree_iterHotAddresses hp hb⟩
  · rw [hreply]
    exact hotSet_replies_documented ∅
  · obtain ⟨-, -, o, hi, hv⟩ := hp
    obtain ⟨-, -, hi', hv'⟩ := hb
    rw [hi.hotIpCount_eq, hi'.hotIpCount_eq, hv, hv']

/-! ## The queries as questions about the set -/

namespace PatriciaTrie

section Set

variable {family : AddressFamily} {H : Finset Address} {t : PatriciaTrie} {a : Address}

/-- `hot_count` of a prefix whose network fits the width is the number of members beneath it. -/
theorem Represents.hotCount (h : t.Represents family H) {p : Prefix} (hp : p.family = family)
    (h0 : 0 ≤ p.network) (hlt : p.network < 2^family.bitLength) :
    t.hotCount p = .ok ((H.filter fun a => p.contains a = true).card : ℕ) := by
  obtain ⟨rfl, hH, o, hi, hv⟩ := h
  obtain ⟨n, hn⟩ := Int.eq_ofNat_of_zero_le h0
  have hres : residue t.bitLength p.network = n := by
    rw [hn]
    refine residue_natCast ?_
    rw [hn] at hlt
    exact_mod_cast hlt
  rw [hi.hotCount_eq hp, card_filter_contains hH hp hn, hv, hres]
  rfl

/-- `iter_hot_addresses` yields the members, ascending. -/
theorem Represents.iterHotAddresses (h : t.Represents family H) :
    ∃ as, t.iterHotAddresses = .ok as ∧ (as.Pairwise fun a b => a.value < b.value) ∧
      ∀ a, a ∈ as ↔ a ∈ H := by
  obtain ⟨rfl, hH, o, hi, hv⟩ := h
  obtain ⟨as, has, hval, hfam⟩ := hi.iterHotAddresses_spec
  refine ⟨as, has, ?_, fun a => ?_⟩
  · have hsorted := hi.leaves_sorted
    rw [← hval] at hsorted
    exact List.pairwise_map.1 hsorted
  · rw [hv] at hval
    constructor
    · intro ha
      rw [← HotSet.value_mem_values hH (hfam a ha), ← hval]
      exact List.mem_map.2 ⟨a, ha, rfl⟩
    · intro ha
      have hin := (HotSet.value_mem_values hH (hH a ha)).2 ha
      rw [← hval] at hin
      obtain ⟨b, hb, hab⟩ := List.mem_map.1 hin
      have heq : b = a := Address.ext ((hfam b hb).trans (hH a ha).symm) hab
      exact heq ▸ hb

/-- A prefix of a number of the set, with its count, as the listing has it. -/
theorem mem_listing_iff (hH : ∀ a ∈ H, a.family = family) (m : ℕ) (pc : PrefixCount) :
    (∃ l v, m ≤ l ∧ l ≤ family.bitLength ∧ v ∈ HotSet.values H ∧
        pc = ⟨prefixAt family v l, countUnder family.bitLength (HotSet.values H) l v⟩) ↔
      pc.pfx.family = family ∧ m ≤ pc.pfx.length ∧ (∃ a ∈ H, pc.pfx.contains a = true) ∧
        pc.hotCount = ((H.filter fun a => pc.pfx.contains a = true).card : ℕ) := by
  -- The count that the listing gives is the number of members beneath the prefix.
  have hcard : ∀ {l : ℕ} (v : ℕ), l ≤ family.bitLength →
      (H.filter fun a => (prefixAt family v l).contains a = true).card =
        countUnder family.bitLength (HotSet.values H) l v := by
    intro l v hl
    have hn : (prefixAt family v l).network = (cleared family.bitLength l v : ℕ) := by
      simp [prefixAt, min_eq_left hl]
    have hlen : (prefixAt family v l).length = l := by simp [prefixAt, min_eq_left hl]
    rw [card_filter_contains hH (p := prefixAt family v l) rfl hn, hlen]
    unfold countUnder
    rw [top_cleared]
  constructor
  · rintro ⟨l, v, hm, hl, hv, rfl⟩
    obtain ⟨a, ha, rfl⟩ := HotSet.mem_values.1 hv
    refine ⟨rfl, ?_, ⟨a, ha, (prefixAt_contains hl a).2 ⟨hH a ha, rfl⟩⟩, ?_⟩
    · simpa [prefixAt, min_eq_left hl] using hm
    · rw [hcard a.value hl]
  · rintro ⟨rfl, hm, ⟨a, ha, hcont⟩, hcount⟩
    have hpfx := eq_prefixAt hcont
    refine ⟨pc.pfx.length, a.value, hm, pc.pfx.length_le, HotSet.mem_values.2 ⟨a, ha, rfl⟩, ?_⟩
    have := hcard a.value pc.pfx.length_le
    rw [← hpfx] at this
    rw [this] at hcount
    obtain ⟨p, c⟩ := pc
    simp only [PrefixCount.mk.injEq]
    exact ⟨hpfx, hcount⟩

/-- `longest_matching_prefix`, as a question about the set. -/
theorem longestOf_spec (hH : ∀ a ∈ H, a.family = family) (ha : a.family = family) :
    (H = ∅ → longestOf family (HotSet.values H) a.value = none) ∧
      (H ≠ ∅ → ∃ p, longestOf family (HotSet.values H) a.value = some p ∧ p.contains a = true ∧
        (∃ b ∈ H, p.contains b = true) ∧
        ∀ q : Prefix, q.contains a = true → (∃ b ∈ H, q.contains b = true) →
          q.length ≤ p.length) := by
  have hav : a.value < 2^family.bitLength := by
    rw [← ha]
    exact a.inRange
  constructor
  · rintro rfl
    simp [longestOf, HotSet.values]
  · intro hne
    obtain ⟨b, hb⟩ := Finset.nonempty_iff_ne_empty.2 hne
    have hvals : HotSet.values H ≠ [] :=
      List.ne_nil_of_mem (HotSet.mem_values.2 ⟨b, hb, rfl⟩)
    have hlt : ∀ v ∈ HotSet.values H, v < 2^family.bitLength := by
      intro v hv
      obtain ⟨c, hc, rfl⟩ := HotSet.mem_values.1 hv
      rw [← hH c hc]
      exact c.inRange
    obtain ⟨l0, hl0, hpos0⟩ := (countUnder_pos_iff hlt hav).2 hvals
    -- The greatest length with a positive count.
    have hspec : 0 < countUnder family.bitLength (HotSet.values H)
        (Nat.findGreatest (fun l => 0 < countUnder family.bitLength (HotSet.values H) l a.value)
          family.bitLength) a.value :=
      Nat.findGreatest_spec (P := fun l => 0 < countUnder family.bitLength (HotSet.values H) l a.value)
        hl0 hpos0
    have hle := Nat.findGreatest_le
      (P := fun l => 0 < countUnder family.bitLength (HotSet.values H) l a.value) family.bitLength
    refine ⟨_, if_neg hvals, (prefixAt_contains hle a).2 ⟨ha, rfl⟩, ?_, ?_⟩
    · obtain ⟨v, hv, htop⟩ := List.countP_pos_iff.1 hspec
      obtain ⟨c, hc, rfl⟩ := HotSet.mem_values.1 hv
      exact ⟨c, hc, (prefixAt_contains hle c).2 ⟨hH c hc, of_decide_eq_true htop⟩⟩
    · rintro q hqa ⟨c, hc, hqc⟩
      have hq := eq_prefixAt hqa
      have hqf : q.family = family := (network_of_contains hqa).1.symm.trans ha
      have hql : q.length ≤ family.bitLength := hqf ▸ q.length_le
      rw [hq, hqf, prefixAt_contains hql] at hqc
      have hpos : 0 < countUnder family.bitLength (HotSet.values H) q.length a.value :=
        List.countP_pos_iff.2 ⟨c.value, HotSet.mem_values.2 ⟨c, hc, rfl⟩, by simpa using hqc.2⟩
      have := Nat.le_findGreatest
        (P := fun l => 0 < countUnder family.bitLength (HotSet.values H) l a.value) hql hpos
      simpa [prefixAt, min_eq_left hle] using this

end Set

end PatriciaTrie

/-- The Patricia trie after any calls is the set `H` after the same calls: both mutations reply whether
they change `H`, a count is a number of members of `H`, the prefixes listed are those with a member
beneath them, and the longest match is the longest prefix with a member beneath it. -/
theorem patricia_is_hot_set (family : AddressFamily) (calls : List Call) :
    (∀ a : Address, a.family = family →
      (∃ t', (PatriciaTrie.run family calls).2.addHotIp a =
        .ok (decide (a ∉ (HotSet.run family calls).2), t')) ∧
      ∃ t', (PatriciaTrie.run family calls).2.removeHotIp a =
        .ok (decide (a ∈ (HotSet.run family calls).2), t')) ∧
    (∀ p : Prefix, p.family = family → 0 ≤ p.network → p.network < 2^family.bitLength →
      (PatriciaTrie.run family calls).2.hotCount p =
        .ok (((HotSet.run family calls).2.filter fun a => p.contains a = true).card : ℕ)) ∧
    (∀ m : ℕ, m ≤ family.bitLength → ∃ ps,
      (PatriciaTrie.run family calls).2.iterPrefixCounts m = .ok ps ∧
      ps.Pairwise PrefixCount.Before ∧
      ∀ pc : PrefixCount, pc ∈ ps ↔ pc.pfx.family = family ∧ m ≤ pc.pfx.length ∧
        (∃ a ∈ (HotSet.run family calls).2, pc.pfx.contains a = true) ∧
        pc.hotCount =
          (((HotSet.run family calls).2.filter fun a => pc.pfx.contains a = true).card : ℕ)) ∧
    (∃ as, (PatriciaTrie.run family calls).2.iterHotAddresses = .ok as ∧
      (as.Pairwise fun a b => a.value < b.value) ∧
      ∀ a, a ∈ as ↔ a ∈ (HotSet.run family calls).2) ∧
    (∀ a : Address, a.family = family → ∃ r,
      (PatriciaTrie.run family calls).2.longestMatchingPrefix a = .ok r ∧
      ((HotSet.run family calls).2 = ∅ → r = none) ∧
      ((HotSet.run family calls).2 ≠ ∅ → ∃ p, r = some p ∧ p.contains a = true ∧
        (∃ b ∈ (HotSet.run family calls).2, p.contains b = true) ∧
        ∀ q : Prefix, q.contains a = true →
          (∃ b ∈ (HotSet.run family calls).2, q.contains b = true) → q.length ≤ p.length)) := by
  obtain ⟨-, hrep⟩ := patricia_run_represents family calls
  generalize (PatriciaTrie.run family calls).2 = t at hrep ⊢
  generalize (HotSet.run family calls).2 = H at hrep ⊢
  have hrep' := hrep
  obtain ⟨rfl, hH, o, hi, hv⟩ := hrep'
  refine ⟨?_, fun p hp h0 hlt => hrep.hotCount hp h0 hlt, ?_, hrep.iterHotAddresses, ?_⟩
  · intro a ha
    obtain ⟨t1, h1, -⟩ := hrep.addHotIp ha
    obtain ⟨t2, h2, -⟩ := hrep.removeHotIp ha
    exact ⟨⟨t1, h1⟩, t2, h2⟩
  · intro m hm
    obtain ⟨ps, hps, hsorted, hmem⟩ := hi.iterPrefixCounts_spec hm
    rw [hv] at hmem
    refine ⟨ps, hps, hsorted, fun pc => ?_⟩
    rw [hmem, PatriciaTrie.mem_listing_iff hH]
  · intro a ha
    have hl := hi.longestMatchingPrefix_eq ha
    rw [hv] at hl
    obtain ⟨h1, h2⟩ := PatriciaTrie.longestOf_spec hH ha
    exact ⟨_, hl, h1, h2⟩

end Hammertime.Trie
