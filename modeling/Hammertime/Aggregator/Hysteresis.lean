import Hammertime.Aggregator.Claim
import Hammertime.Aggregator.Rebuild

/-!
# Hysteresis over whole runs

Between the operations of a worker no IP is on the wrong side of its threshold: a COLD or untracked
IP counts less than `hot_threshold`, and a HOT one at least `cold_threshold` unless it is inherited
and still warming up. An evaluation runs only when something has happened to an IP, so what has to
be shown is that nothing happens to an IP without an evaluation after it. `Hysteretic X` is the
invariant with the IPs of `X` left out, those that an evaluation still has to settle: each method of
the window puts the IPs it may have moved into `X`, and each evaluation takes one out.
-/

namespace Hammertime.Aggregator

open Lib World

/-- The invariant of a window under `config`, except for the IPs in `X`. -/
structure Hysteretic (X : Set Address) (config : DetectionConfig) (w : ShardWindow) : Prop where
  config_eq : w.config = config
  /-- The counters have the geometry of the configuration. -/
  geometry : ∀ ip entry, w.entries.get? ip = some entry →
    entry.counter.bucketSeconds = config.bucketSeconds
  below : ∀ ip ∉ X, w.state ip = .cold → w.total ip < config.hotThreshold
  above : ∀ ip ∉ X, w.state ip = .hot → w.isInherited ip = false →
    config.coldThreshold ≤ w.total ip
  /-- Only HOT IPs are flagged, and only during a warm-up. -/
  flagged : ∀ ip, w.isInherited ip = true → w.state ip = .hot ∧ w.warmUntil ≠ none

namespace Hysteretic

variable {X Y : Set Address} {config : DetectionConfig} {w w' : ShardWindow}

theorem mono (h : Hysteretic X config w) (hXY : X ⊆ Y) : Hysteretic Y config w :=
  ⟨h.config_eq, h.geometry, fun ip hip => h.below ip fun hc => hip (hXY hc),
    fun ip hip => h.above ip fun hc => hip (hXY hc), h.flagged⟩

/-- An untracked IP never needs an evaluation. -/
theorem tracked (h : Hysteretic X config w) (hconfig : config.SchemaValid)
    (hY : ∀ ip ∈ X, w.entries.get? ip ≠ none → ip ∈ Y) : Hysteretic Y config w := by
  refine ⟨h.config_eq, h.geometry, fun ip hip hstate => ?_, fun ip hip hstate => ?_, h.flagged⟩
  · cases hget : w.entries.get? ip with
    | none =>
      simp only [ShardWindow.total, hget]
      exact hconfig.hotThreshold
    | some entry =>
      refine h.below ip (fun hc => hip (hY ip hc ?_)) hstate
      rw [hget]
      exact Option.some_ne_none _
  · refine h.above ip (fun hc => hip (hY ip hc ?_)) hstate
    obtain ⟨entry, hget, -⟩ := ShardWindow.state_eq_hot_iff.mp hstate
    rw [hget]
    exact Option.some_ne_none _

/-- The window keeps its IPs' entries, or drops COLD ones. -/
theorem of_shrinks (h : Hysteretic X config w) (hconfig : config.SchemaValid) (hs : w.Shrinks w') :
    Hysteretic X config w' := by
  -- A dropped IP is untracked: COLD, not flagged, and counting nothing.
  have hdrop : ∀ ip, w'.entries.get? ip = none →
      w'.state ip = .cold ∧ w'.total ip = 0 ∧ w'.isInherited ip = false := by
    intro ip hn
    simp only [ShardWindow.state, ShardWindow.total, ShardWindow.isInherited, hn, and_self]
  refine ⟨hs.config.trans h.config_eq, fun ip entry hget => ?_, fun ip hip hstate => ?_,
    fun ip hip hstate hflag => ?_, fun ip hflag => ?_⟩
  · obtain hk | ⟨hn, -⟩ := hs.kept ip
    · exact h.geometry ip entry (hk.symm.trans hget)
    · rw [hn] at hget
      cases hget
  · obtain hk | ⟨hn, -⟩ := hs.kept ip
    · rw [ShardWindow.total_congr hk]
      exact h.below ip hip (by rwa [← ShardWindow.state_congr hk])
    · rw [(hdrop ip hn).2.1]
      exact hconfig.hotThreshold
  · obtain hk | ⟨hn, -⟩ := hs.kept ip
    · rw [ShardWindow.total_congr hk]
      exact h.above ip hip (by rwa [← ShardWindow.state_congr hk])
        (by rwa [← ShardWindow.isInherited_congr hk])
    · rw [(hdrop ip hn).1] at hstate
      cases hstate
  · obtain hk | ⟨hn, -⟩ := hs.kept ip
    · rw [ShardWindow.state_congr hk, hs.warmUntil]
      exact h.flagged ip (by rwa [← ShardWindow.isInherited_congr hk])
    · rw [(hdrop ip hn).2.2] at hflag
      cases hflag

/-- The IPs whose total a sweep lowered while they were HOT. -/
def reportedHot (changes : List WindowChange) : Set Address :=
  { ip | ∃ change ∈ changes, change.ip = ip ∧ change.state = .hot }

/-- A sweep lowers totals: a COLD IP stays below, and a HOT one is reported. -/
theorem of_swept (h : Hysteretic ∅ config w) {now : ℤ} {changes : List WindowChange}
    (hs : w.Swept now changes w') : Hysteretic (reportedHot changes) config w' := by
  refine ⟨hs.config.trans h.config_eq, fun ip entry' hget => ?_, fun ip hip hstate => ?_,
    fun ip hip hstate hflag => ?_, fun ip hflag => ?_⟩
  · obtain ⟨-, hn⟩ | ⟨entry, c', he, he', hc, -⟩ := hs.entries ip
    · rw [hn] at hget
      cases hget
    · rw [he'] at hget
      cases hget
      exact hc.bucketSeconds.trans (h.geometry ip entry he)
  · obtain ⟨hn, hn'⟩ | ⟨entry, c', he, he', hc, -⟩ := hs.entries ip
    · have hcongr := hn'.trans hn.symm
      rw [ShardWindow.total_congr hcongr]
      exact h.below ip (Set.notMem_empty ip) (by rwa [← ShardWindow.state_congr hcongr])
    · rw [ShardWindow.state_of_get? he'] at hstate
      have hbelow := h.below ip (Set.notMem_empty ip) (by rwa [ShardWindow.state_of_get? he])
      rw [ShardWindow.total_of_get? he] at hbelow
      rw [ShardWindow.total_of_get? he']
      exact hc.total_le.trans_lt hbelow
  · obtain ⟨-, hn⟩ | ⟨entry, c', he, he', -, htotal⟩ := hs.entries ip
    · simp only [ShardWindow.state, hn] at hstate
      cases hstate
    · rw [ShardWindow.state_of_get? he'] at hstate
      rw [ShardWindow.isInherited_of_get? he'] at hflag
      obtain htotal | ⟨change, hm, hc, hst⟩ := htotal
      · have habove := h.above ip (Set.notMem_empty ip) (by rwa [ShardWindow.state_of_get? he])
          (by rwa [ShardWindow.isInherited_of_get? he])
        rw [ShardWindow.total_of_get? he] at habove
        rw [ShardWindow.total_of_get? he', htotal]
        exact habove
      · exact absurd ⟨change, hm, hc, hst.trans hstate⟩ hip
  · obtain ⟨-, hn⟩ | ⟨entry, c', he, he', -, -⟩ := hs.entries ip
    · simp only [ShardWindow.isInherited, hn] at hflag
      cases hflag
    · rw [ShardWindow.isInherited_of_get? he'] at hflag
      rw [ShardWindow.state_of_get? he', hs.warmUntil, ← ShardWindow.state_of_get? he]
      exact h.flagged ip (by rwa [ShardWindow.isInherited_of_get? he])

/-- Writing one entry that keeps the flag's meaning leaves that IP to be evaluated. -/
theorem set (h : Hysteretic X config w) {ip : Address} {entry : Entry} (hf : w.Framed w')
    (hentries : w'.entries = w.entries.set ip entry)
    (hgeometry : entry.counter.bucketSeconds = config.bucketSeconds)
    (hflag : entry.inherited = true → entry.state = .hot ∧ w.warmUntil ≠ none) :
    Hysteretic (insert ip X) config w' := by
  have hother : ∀ ip', ip' ∉ insert ip X →
      w'.entries.get? ip' = w.entries.get? ip' ∧ ip' ∉ X := by
    intro ip' hip'
    obtain ⟨hne, hX⟩ := not_or.mp hip'
    exact ⟨by rw [hentries, Dict.get?_set_of_ne _ (Ne.symm hne)], hX⟩
  refine ⟨hf.config.trans h.config_eq, fun ip' entry' hget => ?_, fun ip' hip' hstate => ?_,
    fun ip' hip' hstate hflag' => ?_, fun ip' hflag' => ?_⟩
  · rw [hentries, Dict.get?_set] at hget
    split_ifs at hget
    · cases hget
      exact hgeometry
    · exact h.geometry ip' entry' hget
  · obtain ⟨hk, hX⟩ := hother ip' hip'
    rw [ShardWindow.total_congr hk]
    exact h.below ip' hX (by rwa [← ShardWindow.state_congr hk])
  · obtain ⟨hk, hX⟩ := hother ip' hip'
    rw [ShardWindow.total_congr hk]
    exact h.above ip' hX (by rwa [← ShardWindow.state_congr hk])
      (by rwa [← ShardWindow.isInherited_congr hk])
  · rw [hf.warmUntil]
    by_cases hne : ip = ip'
    · subst hne
      have hget : w'.entries.get? ip = some entry := by rw [hentries, Dict.get?_set_self]
      rw [ShardWindow.isInherited_of_get? hget] at hflag'
      rw [ShardWindow.state_of_get? hget]
      exact hflag hflag'
    · have hk : w'.entries.get? ip' = w.entries.get? ip' := by
        rw [hentries, Dict.get?_set_of_ne _ hne]
      rw [ShardWindow.state_congr hk]
      exact h.flagged ip' (by rwa [← ShardWindow.isInherited_congr hk])

/-- An observation may move the total of its IP and of no other. -/
theorem of_observe (h : Hysteretic ∅ config w) (hconfig : config.SchemaValid) {ip : Address}
    {start delta now : ℤ} {change : Option WindowChange}
    (ho : w.observe ip start delta now = .ok (change, w')) : Hysteretic {ip} config w' := by
  obtain ⟨c, hc, ⟨-, rfl, -⟩ | ⟨c', w₁, entry, hobs, -, hs, hf, he, hcount, hst, hinh, hsame⟩⟩ :=
    ShardWindow.observe_cases ho
  · exact h.mono (Set.empty_subset _)
  · have hgeometry : c.bucketSeconds = config.bucketSeconds := by
      unfold ShardWindow.counterOf at hc
      cases hget : w.entries.get? ip with
      | none =>
        rw [hget, h.config_eq] at hc
        exact (ShardWindow.newCounter_ok hc).1
      | some old =>
        rw [hget] at hc
        cases hc
        exact h.geometry ip old hget
    have h₁ := h.of_shrinks hconfig hs
    have hf₁ : w₁.Framed w' := ⟨hf.shard.trans hs.shard.symm, hf.config.trans hs.config.symm,
      hf.nextSequence.trans hs.nextSequence.symm, hf.warmUntil.trans hs.warmUntil.symm⟩
    have hcounter : entry.counter.bucketSeconds = config.bucketSeconds := by
      rw [hcount, IpCounter.observe_bucketSeconds hobs]
      exact hgeometry
    have hset := h₁.set hf₁ he hcounter fun hflag => by
      rw [hst, hs.warmUntil]
      exact h.flagged ip (hinh ▸ hflag)
    exact hset.mono (by rw [insert_empty_eq])

/-- An observation of an aligned bucket is not refused. -/
theorem exists_observe (h : Hysteretic ∅ config w) (hconfig : config.SchemaValid) (ip : Address)
    (windowStart now : ℤ) (delta : ℕ) :
    ∃ answer, w.observe ip (bucketStart windowStart w.config.bucketSeconds) delta now =
      .ok answer := by
  rw [h.config_eq]
  -- Whichever counter it is, its geometry is the configuration's.
  have hcounter : ∀ c : IpCounter, c.bucketSeconds = config.bucketSeconds →
      ∃ answer, c.observe (bucketStart windowStart config.bucketSeconds) delta now =
        .ok answer := fun c hc =>
    c.exists_observe _ now (by rw [hc]; exact bucketStart_fmod _ _) (Int.natCast_nonneg delta)
  unfold ShardWindow.observe
  cases hget : w.entries.get? ip with
  | none =>
    obtain ⟨c, hc⟩ := ShardWindow.exists_newCounter hconfig
    obtain ⟨⟨applied, c'⟩, hanswer⟩ := hcounter c (ShardWindow.newCounter_ok hc).1
    simp only [h.config_eq, hc, bind, Except.bind, hanswer]
    cases applied <;> exact ⟨_, rfl⟩
  | some entry =>
    obtain ⟨⟨applied, c'⟩, hanswer⟩ := hcounter entry.counter (h.geometry ip entry hget)
    simp only [bind, Except.bind, hanswer]
    cases applied <;> exact ⟨_, rfl⟩

/-- What an evaluation leaves of its IP: it is settled. -/
theorem settled (h : Hysteretic X config w) (ip : Address)
    (hbelow : w.state ip = .cold → w.total ip < config.hotThreshold)
    (habove : w.state ip = .hot → w.isInherited ip = false → config.coldThreshold ≤ w.total ip) :
    Hysteretic (X \ {ip}) config w := by
  refine ⟨h.config_eq, h.geometry, fun ip' hip' hstate => ?_, fun ip' hip' hstate hflag => ?_,
    h.flagged⟩
  · by_cases hne : ip' = ip
    · subst hne
      exact hbelow hstate
    · exact h.below ip' (fun hc => hip' ⟨hc, hne⟩) hstate
  · by_cases hne : ip' = ip
    · subst hne
      exact habove hstate hflag
    · exact h.above ip' (fun hc => hip' ⟨hc, hne⟩) hstate hflag

/-- The IP of an edge is settled once its state is set. -/
theorem of_setState (h : Hysteretic X config w) {ip : Address} {new : IpState}
    (hne : new ≠ w.state ip) (hnew : new = evaluateIpState (w.state ip) (w.total ip) config)
    (hset : w.taken.setState ip new = .ok w') : Hysteretic (X \ {ip}) config w' := by
  obtain ⟨entry, hget, hf, hentries⟩ := ShardWindow.setState_ok hset
  have hget₀ : w.entries.get? ip = some entry := hget
  have hself : w'.entries.get? ip =
      some { entry with state := new, inherited := entry.inherited && decide (new = .hot) } := by
    rw [hentries, Dict.get?_set_self]
  have htaken : Hysteretic X config w.taken :=
    ⟨h.config_eq, h.geometry, h.below, h.above, h.flagged⟩
  have hset' := htaken.set hf hentries (h.geometry ip entry hget₀) fun hflag => by
    obtain ⟨hi, hn⟩ := (Bool.and_eq_true _ _).mp hflag
    refine ⟨of_decide_eq_true hn, (h.flagged ip ?_).2⟩
    rw [ShardWindow.isInherited_of_get? hget₀]
    exact hi
  have htotal : w'.total ip = w.total ip := by
    rw [ShardWindow.total_of_get? hself, ShardWindow.total_of_get? hget₀]
  have hstate : w'.state ip = new := ShardWindow.state_of_get? hself
  refine (hset'.settled ip ?_ ?_).mono ?_
  · intro hcold
    rw [hstate] at hcold
    subst hcold
    have hhot : w.state ip = .hot := by
      cases hs : w.state ip
      · exact absurd hs.symm hne
      · rfl
    rw [hhot] at hnew
    rw [htotal]
    exact (evaluateIpState_hot_eq_cold.mp hnew.symm).trans config.cold_lt_hot
  · intro hhot _
    rw [hstate] at hhot
    subst hhot
    have hcold : w.state ip = .cold := by
      cases hs : w.state ip
      · rfl
      · exact absurd hs.symm hne
    rw [hcold] at hnew
    rw [htotal]
    exact config.cold_lt_hot.le.trans (evaluateIpState_cold_eq_hot.mp hnew.symm)
  · rintro ip' ⟨rfl | hX, hne'⟩
    · exact absurd rfl hne'
    · exact ⟨hX, hne'⟩

/-- The end of the warm-up leaves the IPs that were inherited and HOT to be evaluated. -/
theorem finishWarmup (h : Hysteretic ∅ config w) :
    Hysteretic { ip | ip ∈ w.finishWarmup.1 } config w.finishWarmup.2 := by
  -- The entry of an IP before the flags were cleared.
  have hentry : ∀ ip entry', w.finishWarmup.2.entries.get? ip = some entry' →
      ∃ entry, w.entries.get? ip = some entry ∧ entry' = { entry with inherited := false } := by
    intro ip entry' hget
    rw [ShardWindow.get?_finishWarmup, Option.map_eq_some_iff] at hget
    obtain ⟨entry, he, hmap⟩ := hget
    exact ⟨entry, he, hmap.symm⟩
  refine ⟨h.config_eq, fun ip entry' hget => ?_, fun ip hip hstate => ?_,
    fun ip hip hstate _ => ?_, fun ip hflag => ?_⟩
  · obtain ⟨entry, he, rfl⟩ := hentry ip entry' hget
    exact h.geometry ip entry he
  · cases hget : w.finishWarmup.2.entries.get? ip with
    | none =>
      have hn : w.entries.get? ip = none := by
        rw [ShardWindow.get?_finishWarmup, Option.map_eq_none_iff] at hget
        exact hget
      have hcongr := hget.trans hn.symm
      rw [ShardWindow.total_congr hcongr]
      exact h.below ip (Set.notMem_empty ip) (by rwa [← ShardWindow.state_congr hcongr])
    | some entry' =>
      obtain ⟨entry, he, rfl⟩ := hentry ip entry' hget
      rw [ShardWindow.state_of_get? hget] at hstate
      have hbelow := h.below ip (Set.notMem_empty ip) (by rwa [ShardWindow.state_of_get? he])
      rw [ShardWindow.total_of_get? he] at hbelow
      rw [ShardWindow.total_of_get? hget]
      exact hbelow
  · obtain ⟨entry', hget, hst⟩ := ShardWindow.state_eq_hot_iff.mp hstate
    obtain ⟨entry, he, rfl⟩ := hentry ip entry' hget
    have hhot : w.state ip = .hot := by
      rw [ShardWindow.state_of_get? he]
      exact hst
    have hflag : w.isInherited ip = false := by
      refine Bool.eq_false_iff.mpr fun hc => hip ?_
      exact ShardWindow.mem_finishWarmup.mpr ⟨hc, hhot⟩
    have habove := h.above ip (Set.notMem_empty ip) hhot hflag
    rw [ShardWindow.total_of_get? he] at habove
    rw [ShardWindow.total_of_get? hget]
    exact habove
  · cases hget : w.finishWarmup.2.entries.get? ip with
    | none =>
      simp only [ShardWindow.isInherited, hget] at hflag
      cases hflag
    | some entry' =>
      obtain ⟨entry, -, rfl⟩ := hentry ip entry' hget
      rw [ShardWindow.isInherited_of_get? hget] at hflag
      cases hflag

/-- Once a window has adopted a configuration every IP is still to be evaluated under it. -/
theorem adopted (h : Hysteretic ∅ config w) {new : DetectionConfig} (now : ℤ)
    (hw : (¬ w.rebuilds new ∧ w' = { w with config := new }) ∨
      ShardWindow.rebuildAll new now { w with config := new } = .ok ⟨⟩ w')
    (hnew : new.SchemaValid) : Hysteretic Set.univ new w' := by
  obtain ⟨hsame, rfl⟩ | hrebuild := hw
  · refine ⟨rfl, fun ip entry hget => ?_, fun ip hip => absurd (Set.mem_univ ip) hip,
      fun ip hip => absurd (Set.mem_univ ip) hip, h.flagged⟩
    have hb : new.bucketSeconds = w.config.bucketSeconds := by
      by_contra hc
      exact hsame (Or.inl hc)
    rw [hb, h.config_eq]
    exact h.geometry ip entry hget
  · obtain ⟨hf, hentries⟩ := ShardWindow.rebuildAll_ok hrebuild
    refine ⟨hf.config, fun ip entry' hget => ?_, fun ip hip => absurd (Set.mem_univ ip) hip,
      fun ip hip => absurd (Set.mem_univ ip) hip, fun ip hflag => ?_⟩
    · obtain ⟨-, hn⟩ | ⟨entry, c', -, hc', he'⟩ := hentries ip
      · rw [hn] at hget
        cases hget
      · rw [he'] at hget
        cases hget
        obtain ⟨fresh, hfresh⟩ := ShardWindow.exists_newCounter hnew
        obtain ⟨c, hc, hg⟩ := ShardWindow.rebuild_ok hfresh entry.counter now
        rw [hc'] at hc
        cases hc
        exact hg.bucketSeconds
    · obtain ⟨-, hn⟩ | ⟨entry, c', he, -, he'⟩ := hentries ip
      · simp only [ShardWindow.isInherited, hn] at hflag
        cases hflag
      · rw [ShardWindow.isInherited_of_get? he'] at hflag
        have he₀ : w.entries.get? ip = some entry := he
        rw [ShardWindow.state_of_get? he', hf.warmUntil, ← ShardWindow.state_of_get? he₀]
        exact h.flagged ip (by rwa [ShardWindow.isInherited_of_get? he₀])

end Hysteretic

/-! ### The programs of a window -/

section Programs

variable {env : Env} {X : Set Address} {config : DetectionConfig}

/-- An evaluation settles its IP, and does not raise. -/
theorem Hysteretic.evaluate (henv : env.Orderly) (hconfig : config.SchemaValid) (ip : Address) :
    Program.Triple (fun scope => Hysteretic X config scope.window) (evaluate env ip config)
      (fun _ scope => Hysteretic (X \ {ip}) config scope.window) (fun _ => False) := by
  have hhot : config.hotThreshold ≠ 0 := by linarith [hconfig.hotThreshold]
  refine Program.Triple.intro ?_ ?_
  · intro s r t h hr
    obtain ⟨-, hw, -, hquiet⟩ | ⟨s₁, emitted, -, hd, hemit⟩ := evaluate_ok hr
    · rw [hw]
      obtain hkeep | ⟨hcold, hwarm⟩ := hquiet
      · -- The state machine keeps the state, so the total is on its side.
        refine h.settled ip (fun hstate => ?_) (fun hstate _ => ?_)
        · refine lt_of_not_ge fun hc => ?_
          have hnew := evaluateIpState_cold_eq_hot.mpr hc
          rw [← hstate] at hnew
          exact absurd (hnew.symm.trans (hkeep.trans hstate)) (by decide)
        · refine le_of_not_gt fun hc => ?_
          have hnew := evaluateIpState_hot_eq_cold.mpr hc
          rw [← hstate] at hnew
          exact absurd (hnew.symm.trans (hkeep.trans hstate)) (by decide)
      · -- The demotion is suppressed: the IP is flagged.
        refine h.settled ip (fun hstate => ?_) (fun _ hflag => ?_)
        · rw [(h.flagged ip hwarm.1).1] at hstate
          cases hstate
        · rw [hwarm.1] at hflag
          cases hflag
    · obtain ⟨eventId, value, w', -, hset, rfl, -⟩ := emit_ok hemit
      rw [hd.window] at hset
      exact h.of_setState hd.changed rfl hset
  · intro s e t h hr
    obtain ⟨s₁, hd, hemit⟩ := evaluate_error hr
    -- An untracked IP counts nothing and stays COLD, so there is an entry.
    have htracked : s₁.window.entries.get? ip ≠ none := by
      rw [hd.window]
      intro hget
      refine hd.changed ?_
      have hstate : s.window.state ip = .cold := by simp only [ShardWindow.state, hget]
      have htotal : s.window.total ip = 0 := by simp only [ShardWindow.total, hget]
      show evaluateIpState (s.window.state ip) (s.window.total ip) config = s.window.state ip
      rw [hstate, htotal]
      exact if_neg (by linarith [hconfig.hotThreshold])
    have hcount : 0 ≤ (edgeOf s.window ip config).count := s.window.total_nonneg ip
    obtain ⟨emitted, u, hu⟩ := emit_returns henv hcount hhot htracked
    rw [hemit] at hu
    cases hu

theorem Hysteretic.settle (henv : env.Orderly) (hconfig : config.SchemaValid) (ip : Address) :
    Program.Triple (fun scope => Hysteretic X config scope.window) (settle env ip config)
      (fun _ scope => Hysteretic (X \ {ip}) config scope.window) (fun _ => False) :=
  Program.Triple.bind (Hysteretic.evaluate henv hconfig ip) fun _ => Program.Triple.pure fun _ h => h

/-- Evaluating the IPs of a list settles them all. -/
theorem Hysteretic.settleAll (henv : env.Orderly) (hconfig : config.SchemaValid)
    (ips : List Address) :
    Program.Triple (fun scope => Hysteretic { ip | ip ∈ ips } config scope.window)
      (ips.forM fun ip => Aggregator.settle env ip config)
      (fun _ scope => Hysteretic ∅ config scope.window) (fun _ => False) := by
  refine (Program.Triple.forM
    (I := fun rest scope => Hysteretic { ip | ip ∈ rest } config scope.window) ips
    fun ip rest => ?_).conseq (fun _ h => h) (fun _ scope h => h.mono ?_) fun _ h => h
  · refine (Hysteretic.settle henv hconfig ip).conseq (fun _ h => h) (fun _ scope h => h.mono ?_)
      fun _ h => h
    rintro ip' ⟨hm, hne⟩
    obtain rfl | hm := List.mem_cons.mp hm
    · exact absurd rfl hne
    · exact hm
  · intro ip hm
    cases hm

theorem Hysteretic.countObservation (henv : env.Orderly) (hconfig : config.SchemaValid)
    (windowStart : ℤ) (entry : Observation) :
    Program.Triple (fun scope => Hysteretic ∅ config scope.window)
      (Aggregator.countObservation env windowStart entry config)
      (fun _ scope => Hysteretic ∅ config scope.window) (fun _ => False) := by
  refine Program.Triple.get_bind fun s hs => ?_
  refine Program.Triple.bind
    (Q := fun _ scope => Hysteretic {entry.ip} config scope.window) ?_ fun _ => ?_
  · refine Program.Triple.intro ?_ ?_
    · intro s' change t heq ho
      subst heq
      exact hs.of_observe hconfig (observe_ok ho).1
    · intro s' e t heq ho
      subst heq
      obtain ⟨answer, hanswer⟩ := hs.exists_observe hconfig entry.ip windowStart
        (env.now s'.shared.tick) entry.requestCount
      obtain hclock | ⟨now, s₁, hclock, ho⟩ := Program.bind_error.mp ho
      · cases hclock
      · cases hclock
        have herr := (inside_error.mp ho).1
        rw [show s'.window.observe entry.ip
          (bucketStart windowStart s'.window.config.bucketSeconds) entry.requestCount
          (env.now s'.shared.tick) = .ok answer from hanswer] at herr
        cases herr
  · refine (Hysteretic.settle henv hconfig entry.ip).conseq (fun _ h => h)
      (fun _ scope h => h.mono ?_) fun _ h => h
    rw [Set.sdiff_self]

theorem Hysteretic.sweepWindow (henv : env.Orderly) (hconfig : config.SchemaValid) :
    Program.Triple (fun scope => Hysteretic ∅ config scope.window)
      (Aggregator.sweepWindow env config)
      (fun _ scope => Hysteretic ∅ config scope.window) (fun _ => False) := by
  refine Program.Triple.bind
    (Q := fun changes scope => Hysteretic (reportedHot changes) config scope.window) ?_
    fun changes => ?_
  · intro s hs
    rw [expireDue_apply]
    exact hs.of_swept (ShardWindow.expireDue_swept s.window _)
  · refine (Program.Triple.forM
      (I := fun rest scope => Hysteretic (reportedHot rest) config scope.window) changes
      fun change rest => ?_).conseq (fun _ h => h) (fun _ scope h => h.mono ?_) fun _ h => h
    · split_ifs with hhot
      · refine (Hysteretic.settle henv hconfig change.ip).conseq (fun _ h => h)
          (fun _ scope h => h.mono ?_) fun _ h => h
        rintro ip ⟨⟨change', hm, hip, hst⟩, hne⟩
        obtain rfl | hm := List.mem_cons.mp hm
        · exact absurd hip.symm hne
        · exact ⟨change', hm, hip, hst⟩
      · refine Program.Triple.pure fun scope h => h.mono ?_
        rintro ip ⟨change', hm, hip, hst⟩
        obtain rfl | hm := List.mem_cons.mp hm
        · exact absurd hst hhot
        · exact ⟨change', hm, hip, hst⟩
    · rintro ip ⟨change, hm, -⟩
      cases hm

theorem Hysteretic.warmWindow (henv : env.Orderly) (hconfig : config.SchemaValid) :
    Program.Triple (fun scope => Hysteretic ∅ config scope.window)
      (Aggregator.warmWindow env config)
      (fun _ scope => Hysteretic ∅ config scope.window) (fun _ => False) := by
  refine Program.Triple.bind (Q := fun warmed scope =>
    Hysteretic { ip | ip ∈ (warmed.getD ∅ : Finset Address) } config scope.window) ?_
    fun warmed => ?_
  · intro s hs
    obtain ⟨t, ht, hw, -, -⟩ | ⟨u, -, -, ht⟩ := finishWarmupIfDue_ok env s
    · rw [ht]
      show Hysteretic _ config t.window
      rw [hw]
      exact hs.mono (Set.empty_subset _)
    · rw [ht]
      exact hs.finishWarmup
  · refine Program.Triple.bind (Q := fun ips scope =>
      Hysteretic { ip | ip ∈ ips } config scope.window) ?_ fun ips =>
        Hysteretic.settleAll henv hconfig ips
    intro s hs
    exact hs.mono fun ip hip => (env.mem_arrange _ _ _).mpr hip

theorem Hysteretic.maintainWindow (henv : env.Orderly) (hconfig : config.SchemaValid) :
    Program.Triple (fun scope => Hysteretic ∅ config scope.window)
      (Aggregator.maintainWindow env config)
      (fun _ scope => Hysteretic ∅ config scope.window) (fun _ => False) := by
  refine Program.Triple.bind (Hysteretic.sweepWindow henv hconfig) fun _ =>
    Program.Triple.bind (Hysteretic.warmWindow henv hconfig) fun _ =>
      Program.Triple.bind (Q := fun _ scope => Hysteretic ∅ config scope.window) ?_ fun _ =>
        Program.Triple.pure fun _ h => h
  intro s hs
  rw [evictDue_apply]
  exact hs.of_shrinks hconfig (ShardWindow.evictDue_shrinks s.window _)

theorem Hysteretic.adoptConfig {new : DetectionConfig} (hnew : new.SchemaValid) :
    Program.Triple (fun scope => Hysteretic ∅ config scope.window)
      (Aggregator.adoptConfig env new)
      (fun _ scope => Hysteretic Set.univ new scope.window) (fun _ => False) := by
  refine Program.Triple.intro ?_ ?_
  · intro s a t hs hr
    rw [adoptConfig_eq] at hr
    split_ifs at hr with hrebuilds
    · obtain ⟨w', hw', rfl⟩ := Program.zoom_ok.mp hr
      exact hs.adopted _ (Or.inr hw') hnew
    · cases hr
      exact hs.adopted 0 (Or.inl ⟨hrebuilds, rfl⟩) hnew
  · intro s e t hs hr
    rw [adoptConfig_eq] at hr
    split_ifs at hr with hrebuilds
    · obtain ⟨w', hw', -⟩ := Program.zoom_error.mp hr
      obtain ⟨fresh, hfresh⟩ := ShardWindow.exists_newCounter hnew
      exact absurd hfresh ((ShardWindow.rebuildAll_error hw').2 fresh)

theorem Hysteretic.reevaluateShard (henv : env.Orderly) (hconfig : config.SchemaValid)
    {batch : ℤ} (hbatch : 0 < batch) :
    Program.Triple (fun scope => Hysteretic Set.univ config scope.window)
      (Aggregator.reevaluateShard env config batch)
      (fun _ scope => Hysteretic ∅ config scope.window) (fun _ => False) := by
  unfold Aggregator.reevaluateShard
  rw [if_neg (not_le.mpr hbatch)]
  refine Program.Triple.get_bind fun s hs => ?_
  refine Program.Triple.bind (Q := fun targets scope =>
    Hysteretic { ip | ip ∈ targets } config scope.window) ?_ fun targets => ?_
  · intro s' heq
    subst heq
    refine hs.tracked hconfig fun ip _ hget => ?_
    refine (env.mem_arrange _ _ _).mpr (ShardWindow.mem_trackedIps.mpr ?_)
    exact Option.ne_none_iff_exists'.mp hget
  · refine (Program.Triple.foldlM
      (I := fun rest scope => Hysteretic { ip | ip ∈ rest } config scope.window) targets 0
      fun _ ip rest => ?_).conseq (fun _ h => h) (fun _ scope h => h.mono ?_) fun _ h => h
    · refine Program.Triple.bind (Hysteretic.evaluate henv hconfig ip) fun _ =>
        Program.Triple.pure fun scope h => h.mono ?_
      rintro ip' ⟨hm, hne⟩
      obtain rfl | hm := List.mem_cons.mp hm
      · exact absurd rfl hne
      · exact hm
    · intro ip hm
      cases hm

/-- The invariant is kept by every program of a worker on a window, and none of them raises. -/
theorem hysteretic_runInvariant (henv : env.Orderly) {batch : ℤ} (hbatch : 0 < batch) :
    RunInvariant env DetectionConfig.SchemaValid batch
      (fun config scope => Hysteretic ∅ config scope.window)
      (fun config scope => Hysteretic Set.univ config scope.window) (fun _ => False) where
  stable _ _ _ _ _ h := h
  stable_adopted _ _ _ _ _ h := h
  countObservation _ hconfig := Hysteretic.countObservation henv hconfig
  maintainWindow _ hconfig := Hysteretic.maintainWindow henv hconfig
  adoptConfig _ _ _ hnew := Hysteretic.adoptConfig hnew
  reevaluateShard _ hconfig := Hysteretic.reevaluateShard henv hconfig hbatch

end Programs

/-- A window as its claim left it is on the right side of every threshold. -/
theorem Opened.hysteretic {env : Env} {config : DetectionConfig} {scope : Scope}
    (h : Opened env config scope) (hconfig : config.SchemaValid) :
    Hysteretic ∅ config scope.window := by
  obtain ⟨tick, -, hnew⟩ := h.isNew
  -- The entry of an inherited IP; no other IP has one.
  have hentry : ∀ ip entry, scope.window.entries.get? ip = some entry →
      ip ∈ (scope.shared.store.load scope.window.shard).hotIps ∧
        ∃ c, newCounter config = .ok c ∧ entry = ⟨c, .hot, env.now tick, true⟩ := by
    intro ip entry hget
    by_cases hip : ip ∈ (scope.shared.store.load scope.window.shard).hotIps
    · obtain ⟨c, hc, hget'⟩ := hnew.inherited ip hip
      rw [hget] at hget'
      cases hget'
      exact ⟨hip, c, hc, rfl⟩
    · rw [hnew.untracked ip hip] at hget
      cases hget
  refine ⟨hnew.config_eq, fun ip entry hget => ?_, fun ip _ hstate => ?_,
    fun ip _ hstate hflag => ?_, fun ip hflag => ?_⟩
  · obtain ⟨-, c, hc, rfl⟩ := hentry ip entry hget
    exact (ShardWindow.newCounter_ok hc).1
  · cases hget : scope.window.entries.get? ip with
    | none =>
      simp only [ShardWindow.total, hget]
      exact hconfig.hotThreshold
    | some entry =>
      obtain ⟨-, c, -, rfl⟩ := hentry ip entry hget
      rw [ShardWindow.state_of_get? hget] at hstate
      cases hstate
  · obtain ⟨entry, hget, -⟩ := ShardWindow.state_eq_hot_iff.mp hstate
    obtain ⟨-, c, -, rfl⟩ := hentry ip entry hget
    rw [ShardWindow.isInherited_of_get? hget] at hflag
    cases hflag
  · cases hget : scope.window.entries.get? ip with
    | none =>
      simp only [ShardWindow.isInherited, hget] at hflag
      cases hflag
    | some entry =>
      obtain ⟨hip, c, -, rfl⟩ := hentry ip entry hget
      refine ⟨ShardWindow.state_of_get? hget, ?_⟩
      rw [hnew.warmUntil, if_neg (Finset.ne_empty_of_mem hip)]
      exact Option.some_ne_none _

end Hammertime.Aggregator
