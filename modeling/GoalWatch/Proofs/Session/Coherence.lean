import GoalWatch.Proofs.Session.Backing
import GoalWatch.Proofs.Session.Flow

/-!
# One set of settings

If settings change for all registered runners at once only, each of them works with the settings of the registry:
what it has in flight was asked with them, and what it knows was asked since they were given out.

* `Runner.Rooted` -- batches in flight and problems come from some of the marks, with the settings there are now;
* `rooted_stint` -- what happens to a runner of itself keeps this;
* `Session.Rests`, `rests_beat` -- the same for all runners that started over at some moment;
* `Session.Enrolled`, `enrolled_beat` -- who is registered has the settings of the registry;
* `Session.Anew`, `anew_refreshed` -- all registered runners start over when settings change;
* **`settings_coherent`** -- so it stands after every move.
-/

namespace GoalWatch

/-- No single runner gets other settings. -/
def Move.keepsSettings : Move → Bool
  | .runner _ (.refresh _) | .runner _ (.setSolvers _) => false
  | _ => true

/-- All registered runners get other settings. -/
def Move.isRefresh : Move → Bool
  | .refreshAll _ => true
  | _ => false

/-! ## 1. One runner -/

namespace Runner

variable {c c' : Runner} {ds es : List Deed}

/-- The runner starts over: nothing is in flight, and no problem is known. -/
structure Renewed (c : Runner) : Prop where
  flying : c.inFlight = []
  problems : c.problems = []

/-- **What a runner has in flight and knows of was asked with its settings**, in batches among the marks. -/
structure Rooted (c : Runner) (ds : List Deed) : Prop where
  flying : ∀ b ∈ c.inFlight, ∃ launch, .launched launch ∈ ds ∧ launch.batch = b ∧ launch.settings = c.settings
  problems : ∀ x ∈ c.problems, ∃ launch, .launched launch ∈ ds ∧ launch.batch = x.batch ∧
    launch.settings = c.settings ∧ ⟨x.node, x.sequent⟩ ∈ launch.problems

theorem Renewed.rooted (h : Renewed c) (ds : List Deed) : Rooted c ds where
  flying _ hb := absurd (h.flying ▸ hb) List.not_mem_nil
  problems _ hx := absurd (h.problems ▸ hx) List.not_mem_nil

theorem Rooted.mono (h : Rooted c ds) (hd : ds ⊆ es) : Rooted c es where
  flying b hb := (h.flying b hb).imp fun _ hl => ⟨hd hl.1, hl.2⟩
  problems x hx := (h.problems x hx).imp fun _ hl => ⟨hd hl.1, hl.2⟩

/-- Less is in flight, and less is known. -/
theorem Rooted.less (h : Rooted c ds) (hs : c'.settings = c.settings) (hf : ∀ b ∈ c'.inFlight, b ∈ c.inFlight)
    (hp : ∀ x ∈ c'.problems, ∃ y ∈ c.problems, y.node = x.node ∧ y.sequent = x.sequent ∧ y.batch = x.batch) :
    Rooted c' (es ++ ds) := by
  have hless : Rooted c' ds := by
    refine ⟨fun b hb => hs ▸ h.flying b (hf b hb), fun x hx => ?_⟩
    obtain ⟨y, hy, hnode, hsequent, hbatch⟩ := hp x hx
    rw [hs, ← hnode, ← hsequent, ← hbatch]
    exact h.problems y hy
  exact hless.mono (List.subset_append_right _ _)

theorem Rooted.same (h : Rooted c ds) (hs : c'.settings = c.settings) (hf : c'.inFlight = c.inFlight)
    (hp : c'.problems = c.problems) : Rooted c' (es ++ ds) :=
  h.less hs (fun _ hb => hf ▸ hb) fun x hx => ⟨x, hp ▸ hx, rfl, rfl, rfl⟩

theorem Rooted.suspend (h : Rooted c ds) : Rooted c.suspend (es ++ ds) := by
  unfold Runner.suspend
  split <;> exact h.same rfl rfl rfl

theorem Rooted.unsuspend (h : Rooted c ds) : Rooted c.unsuspend (es ++ ds) := by
  unfold Runner.unsuspend
  split <;> exact h.same rfl rfl rfl

/-- A batch is handed out. -/
theorem Rooted.afterLaunch (h : Rooted c ds) (picked : List Goal) :
    Rooted (c.afterLaunch picked) (.launched (c.launchOf picked) :: ds) where
  flying b hb := by
    rcases List.mem_append.mp hb with hb | hb
    · obtain ⟨launch, hl, hrest⟩ := h.flying b hb
      exact ⟨launch, List.mem_cons_of_mem _ hl, hrest⟩
    · rw [List.mem_singleton.mp hb]
      exact ⟨_, List.mem_cons_self, rfl, rfl⟩
  problems x hx := by
    rcases List.mem_append.mp hx with hx | hx
    · obtain ⟨launch, hl, hrest⟩ := h.problems x hx
      exact ⟨launch, List.mem_cons_of_mem _ hl, hrest⟩
    · obtain ⟨g, hg, rfl⟩ := List.mem_map.mp hx
      exact ⟨_, List.mem_cons_self, rfl, rfl, hg⟩

/-- Problems that are known after answers were taken in were known before. -/
theorem problem_of_afterAnswers {found kept : NodeId → Bool} {batch : BatchId} {outcomes : List Outcome}
    {x : Problem} (hx : x ∈ (c.afterAnswers found kept batch outcomes).problems) :
    ∃ y ∈ c.problems, y.node = x.node ∧ y.sequent = x.sequent ∧ y.batch = x.batch := by
  obtain ⟨y, hy, rfl⟩ := List.mem_map.mp (List.mem_filter.mp hx).1
  refine ⟨y, hy, ?_⟩
  split
  · exact ⟨(Problem.resolve_node ..).symm, (Problem.resolve_sequent ..).symm, (Problem.resolve_batch ..).symm⟩
  · exact ⟨rfl, rfl, rfl⟩

/-- **What happens to a runner of itself** leaves it with what was asked with its settings. -/
theorem rooted_stint (h : Rooted c es) (hs : c.Stint ds c') : Rooted c' (ds ++ es) := by
  cases hs with
  | dispatch mode goals =>
      rcases Runner.dispatchOpen_eq c mode goals with ⟨⟨next, e⟩, _⟩ | ⟨_, _, _, e⟩
      · rw [e]
        exact h.same rfl rfl rfl
      · rw [e]
        exact h.afterLaunch _
  | suspend => exact h.suspend
  | complete hc =>
      obtain ⟨_, rfl⟩ := complete_cases.mp hc
      exact h.less rfl (fun _ hb => List.mem_of_mem_erase hb) fun _ hx => problem_of_afterAnswers hx
  | stopAll => exact h.less rfl (fun _ hb => absurd hb List.not_mem_nil) fun x hx => ⟨x, hx, rfl, rfl, rfl⟩
  | close =>
      unfold close
      split
      · exact h.same rfl rfl rfl
      · exact (Renewed.mk rfl rfl).rooted _

/-- A known result is one of a problem. -/
theorem problem_of_cachedResult {q : Sequent} {status : Status} (h : c.cachedResult q = some status) :
    ∃ x ∈ c.problems, x.sequent = q ∧ x.result = some status := by
  obtain ⟨x, hx, hr⟩ := List.mem_filterMap.mp (List.mem_of_find?_eq_some h)
  exact ⟨x, (List.mem_filter.mp hx).1, by simpa using (List.mem_filter.mp hx).2, hr⟩

end Runner

namespace Session

variable {A : Intervention → Prop} {b s s' : Session} {p : ProofId} {r k : RunnerId} {news es : List Entry}

/-! ## 2. Runners that started over -/

theorem mem_marks {launch : Launch} :
    .launched launch ∈ news.filterMap (Entry.deed? r) ↔ .requested r launch ∈ news := by
  refine List.mem_filterMap.trans ⟨fun ⟨e, he, hd⟩ => ?_, fun h => ⟨_, h, deed?_eq_launched.mpr rfl⟩⟩
  rw [← deed?_eq_launched.mp hd]
  exact he

theorem marks_entries_self (ds : List Deed) : (ds.map (Deed.entry r)).filterMap (Entry.deed? r) = ds := by
  rw [List.filterMap_map]
  refine (List.filterMap_congr fun d _ => ?_).trans List.filterMap_some
  cases d <;> exact if_pos rfl

/-- **Whoever had nothing in flight and knew of nothing in `b`** has and knows now what was asked since, with the
    settings it has. -/
def Rests (b s : Session) : Prop :=
  ∃ news, s.log = news ++ b.log ∧ ∀ r, (b.runner r).core.Renewed →
    (s.runner r).core.Rooted (news.filterMap (Entry.deed? r))

/-- Further entries are written down, and each runner keeps what it knows. -/
theorem Rests.grow (h : Rests b s) (hlog : s'.log = es ++ s.log)
    (hc : ∀ r {ds}, (s.runner r).core.Rooted ds →
      (s'.runner r).core.Rooted (es.filterMap (Entry.deed? r) ++ ds)) : Rests b s' := by
  obtain ⟨news, hn, hr⟩ := h
  refine ⟨es ++ news, by rw [hlog, hn, List.append_assoc], fun r hb => ?_⟩
  rw [List.filterMap_append]
  exact hc r (hr r hb)

theorem Rests.same (h : Rests b s) (hlog : s'.log = es ++ s.log)
    (hc : ∀ r, (s'.runner r).core = (s.runner r).core) : Rests b s' :=
  h.grow hlog fun r _ hr => by
    rw [hc]
    exact hr.same rfl rfl rfl

theorem rests_setCore (h : Rests b s) (hlog : s'.log = es ++ s.log) {core : Runner}
    (hc : ∀ {ds}, (s.runner k).core.Rooted ds → core.Rooted (es.filterMap (Entry.deed? k) ++ ds))
    (hrun : s'.runner = (s.setCore k core).runner) : Rests b s' := by
  refine h.grow hlog fun r ds hr => ?_
  rw [hrun, setCore]
  rcases runner_modifyRunner_cases (s := s) (r := k) (k := r) fun x => { x with core } with e | ⟨rfl, _, e⟩
  · rw [e]
    exact hr.same rfl rfl rfl
  · rw [e]
    exact hc hr

theorem rooted_enlist {ds : List Deed} (settings : Settings) (h : (s.runner r).core.Rooted ds) :
    ((s.enlist p settings).2.runner r).core.Rooted ds := by
  rcases Nat.lt_trichotomy r s.runners.length with hr | hr | hr
  · rw [runner_enlist_of_lt settings hr]
    exact h
  · rw [hr, runner_enlist_self]
    exact (Runner.Renewed.mk rfl rfl).rooted _
  · rw [runner_of_le (by rw [length_enlist]; omega)]
    exact (Runner.Renewed.mk rfl rfl).rooted _

theorem rests_heed (h : Rests b s) (sink : Sink) (e : Event) : Rests b (s.heed sink e) := by
  unfold heed
  split
  · exact rests_setCore h (List.nil_append _).symm (fun hr => hr.suspend) rfl
  · exact rests_setCore h (List.nil_append _).symm (fun hr => hr.unsuspend) rfl
  · exact h

theorem rests_intervene (h : Rests b s) {i : Intervention} (hi : i.keepsSettings = true) :
    Rests b (s.intervene i) := by
  cases i with
  | settings | refresh | setSolvers => cases hi
  | unsuspend k => exact rests_setCore h (List.nil_append _).symm (fun hr => hr.unsuspend) rfl
  | present | activate => exact h.same (List.nil_append _).symm fun _ => rfl

/-- **One step**, unless settings change by hand. -/
theorem rests_beat (hA : ∀ i, A i → i.keepsSettings = true) (h : Rests b s) (hs : Beat A b s s') :
    Rests b s' := by
  cases hs with
  | note es _ =>
      have hlog : (s.recordAll es).log = es.reverse ++ s.log := rfl
      exact h.same hlog fun _ => rfl
  | @shown p x _ e =>
      have hlog : (s.record (.shown p x.id e)).log = [.shown p x.id e] ++ s.log := rfl
      exact rests_heed (h.same hlog fun _ => rfl) x.sink e
  | watch | subscribe | desk | enrol | clients | tasks =>
      exact h.same (List.nil_append _).symm fun _ => rfl
  | enlist p settings =>
      exact h.grow (List.nil_append _).symm fun _ _ hr => rooted_enlist settings hr
  | host k f hf =>
      refine h.same (List.nil_append _).symm fun r => ?_
      rcases runner_modifyRunner_cases (s := s) (r := k) (k := r) f with e | ⟨_, _, e⟩
      · rw [e]
      · rw [e, hf]
  | @act k ds core tasks hc =>
      refine rests_setCore h rfl (fun hr => ?_) rfl
      rw [marks_entries_self]
      exact Runner.rooted_stint hr hc
  | @byHand i hi => exact rests_intervene h (hA i hi)

theorem Flow.rests (hA : ∀ i, A i → i.keepsSettings = true) (h : Flow A b s) : Rests b s :=
  flow_keep (fun _ => rests_beat hA) ⟨[], rfl, fun _ hr => hr.rooted _⟩ h

/-! ## 3. Registered runners -/

/-- **Who is registered has the settings of the registry**, and was registered in `b` or is newer. -/
def Enrolled (b s : Session) : Prop :=
  ∀ e ∈ s.registry.entries, e.2 < s.runners.length ∧
    (s.runner e.2).core.settings = s.registry.settings ∧
    (e ∈ b.registry.entries ∨ b.runners.length ≤ e.2)

/-- A step registers no runner, or a new one with the settings of the registry. -/
theorem entry_beat (hs : Beat A b s s') {e : ProofId × RunnerId} (he : e ∈ s'.registry.entries) :
    e ∈ s.registry.entries ∨ b.runners.length ≤ e.2 ∧ e.2 < s.runners.length ∧
      (s.runner e.2).core.settings = s.registry.settings := by
  cases hs with
  | note | watch | subscribe | enlist | host | act | clients | tasks => exact Or.inl he
  | shown _ e =>
      rw [registry_heed] at he
      exact Or.inl he
  | desk g _ _ hg => exact Or.inl (hg e he)
  | enrol p hb hr hs =>
      rcases List.mem_append.mp he with he | he
      · exact Or.inl he
      · rw [List.mem_singleton.mp he]
        exact Or.inr ⟨hb, hr, hs⟩
  | @byHand i _ => cases i <;> exact Or.inl he

theorem enrolled_beat (hA : ∀ i, A i → i.keepsSettings = true) (h : Enrolled b s) (hs : Beat A b s s') :
    Enrolled b s' := by
  have hsame := sameSettings_beat hA hs
  intro e he
  have hold : e.2 < s.runners.length ∧ (s.runner e.2).core.settings = s.registry.settings ∧
      (e ∈ b.registry.entries ∨ b.runners.length ≤ e.2) := by
    rcases entry_beat hs he with he | ⟨hb, hr, hset⟩
    · exact h e he
    · exact ⟨hr, hset, Or.inr hb⟩
  obtain ⟨hr, hset, hb⟩ := hold
  exact ⟨Nat.lt_of_lt_of_le hr hsame.runners, by rw [hsame.core _ hr, hset, hsame.registry], hb⟩

/-! ## 4. New settings for all -/

/-- One runner gets new settings and starts over; who had started over with them, has. -/
theorem renewed_refreshSettings {chosen : Settings} (hr : r < s.runners.length)
    (h : r = k ∨ (s.runner r).core.Renewed ∧ (s.runner r).core.settings = chosen) :
    ((s.refreshSettings k chosen).runner r).core.Renewed ∧
      ((s.refreshSettings k chosen).runner r).core.settings = chosen := by
  by_cases hk : r = k
  · subst hk
    have e : ((s.refreshSettings r chosen).runner r).core = ((s.runner r).core.refresh chosen).2 :=
      core_setCore_self _ hr
    rw [e]
    exact ⟨⟨rfl, rfl⟩, rfl⟩
  · have e : ((s.refreshSettings k chosen).runner r).core = (s.runner r).core := core_setCore_of_ne _ hk
    rw [e]
    exact h.resolve_left hk

/-- **In `b` all runners that are registered in `u` started over** with the settings of the registry. -/
structure Anew (u b : Session) : Prop where
  log : ∃ es, b.log = es ++ u.log
  runners : b.runners.length = u.runners.length
  entries : b.registry.entries = u.registry.entries
  entry : ∀ e ∈ u.registry.entries, e.2 < u.runners.length ∧ (b.runner e.2).core.Renewed ∧
    (b.runner e.2).core.settings = b.registry.settings

/-- The runners of a list get new settings one by one. -/
theorem foldl_refreshSettings (chosen : Settings) (l : List (ProofId × RunnerId)) (s : Session) :
    let t := l.foldl (fun s e => s.refreshSettings e.2 chosen) s
    t.registry = s.registry ∧ t.runners.length = s.runners.length ∧ (∃ es, t.log = es ++ s.log) ∧
    ∀ r < s.runners.length,
      (r ∈ l.map Prod.snd ∨ (s.runner r).core.Renewed ∧ (s.runner r).core.settings = chosen) →
      (t.runner r).core.Renewed ∧ (t.runner r).core.settings = chosen := by
  induction l generalizing s with
  | nil => exact ⟨rfl, rfl, ⟨[], rfl⟩, fun r _ h => h.resolve_left List.not_mem_nil⟩
  | cons e l ih =>
      obtain ⟨hreg, hlen, ⟨es, hlog⟩, hrun⟩ := ih (s.refreshSettings e.2 chosen)
      have hl : (s.refreshSettings e.2 chosen).runners.length = s.runners.length := length_modifyRunner _
      have hfirst : (s.refreshSettings e.2 chosen).log =
          ((s.runner e.2).core.inFlight.map (Entry.stopped e.2)).reverse ++ s.log := rfl
      rw [hfirst, ← List.append_assoc] at hlog
      refine ⟨hreg, hlen.trans hl, ⟨_, hlog⟩, fun r hr h => hrun r (hl ▸ hr) ?_⟩
      rcases h with h | h
      · rcases List.mem_cons.mp h with h | h
        · exact Or.inr (renewed_refreshSettings hr (Or.inl h))
        · exact Or.inl h
      · exact Or.inr (renewed_refreshSettings hr (Or.inr h))

theorem anew_refreshed (hw : Wired s) (chosen : Settings) : Anew s (s.refreshed chosen) := by
  obtain ⟨hreg, hlen, hlog, hrun⟩ := foldl_refreshSettings chosen s.registry.entries
    { s with registry := { s.registry with settings := chosen } }
  have hreg' : (s.refreshed chosen).registry = { s.registry with settings := chosen } := hreg
  refine ⟨hlog, hlen, by rw [hreg'], fun e he => ?_⟩
  have hr := (hw.entry e he).1
  obtain ⟨hnew, hset⟩ := hrun e.2 hr (Or.inl (List.mem_map_of_mem he))
  exact ⟨hr, hnew, by rw [hreg']; exact hset⟩

theorem anew_start (proofs : List (String × Tree)) (settings : Settings) :
    Anew (start proofs settings) (start proofs settings) :=
  ⟨⟨[], rfl⟩, rfl, rfl, fun _ he => absurd he List.not_mem_nil⟩

/-! ## 5. Every run -/

/-- **Since all started over, each registered runner works with the settings of the registry**, and so does
    each that was registered then. -/
theorem coherent_flow {u : Session} (hu : Anew u b) (hA : ∀ i, A i → i.keepsSettings = true) (h : Flow A b s) :
    (∀ e ∈ s.registry.entries, (s.runner e.2).core.settings = s.registry.settings) ∧
    ∃ news, s.log = news ++ u.log ∧ ∀ e ∈ u.registry.entries ++ s.registry.entries,
      e.2 < s.runners.length ∧ (s.runner e.2).core.Rooted (news.filterMap (Entry.deed? e.2)) := by
  have hstart : Enrolled b b := by
    intro e he
    obtain ⟨hr, _, hset⟩ := hu.entry e (hu.entries ▸ he)
    exact ⟨hu.runners ▸ hr, hset, Or.inl he⟩
  have henr : Enrolled b s := flow_keep (fun _ => enrolled_beat hA) hstart h
  obtain ⟨es, hes⟩ := hu.log
  obtain ⟨later, hlog, hrooted⟩ := h.rests hA
  rw [hes, ← List.append_assoc] at hlog
  have hall : ∀ r, (b.runner r).core.Renewed →
      (s.runner r).core.Rooted ((later ++ es).filterMap (Entry.deed? r)) := by
    intro r hr
    rw [List.filterMap_append]
    exact (hrooted r hr).mono (List.subset_append_left _ _)
  refine ⟨fun e he => (henr e he).2.1, later ++ es, hlog, fun e he => ?_⟩
  have hold : e ∈ u.registry.entries → e.2 < s.runners.length ∧ (b.runner e.2).core.Renewed := by
    intro he
    obtain ⟨hr, hnew, _⟩ := hu.entry e he
    exact ⟨Nat.lt_of_lt_of_le (hu.runners ▸ hr) h.numbers.runners, hnew⟩
  rcases List.mem_append.mp he with he | he
  · exact ⟨(hold he).1, hall _ (hold he).2⟩
  · obtain ⟨hr, _, hb | hb⟩ := henr e he
    · exact ⟨hr, hall _ (hold (hu.entries ▸ hb)).2⟩
    · refine ⟨hr, hall _ ?_⟩
      rw [runner_of_le hb]
      exact ⟨rfl, rfl⟩

/-- Moves that leave the settings alone do nothing by hand that changes them. -/
theorem keepsSettings_of_needs {m : Move} {i : Intervention} (hk : m.keepsSettings = true)
    (hr : m.isRefresh = false) (h : m.needs s i) : i.keepsSettings = true := by
  cases m with
  | refreshAll chosen => cases hr
  | runner r call =>
      cases call with
      | refresh | setSolvers => cases hk
      | autoStopped =>
          cases h
          rfl
      | dispatch | resume | ruleApplied | autoStarted | treeChanged | close | completed | stopAll => exact h.elim
  | present | select | newRunner =>
      cases h
      rfl
  | applyResult | shutdownAll | proof | finish | listen | subscribe | dispose => exact h.elim

/-- Batches that were requested earlier are not requested again. -/
theorem batch_ne_of_requested {u : Session} (h : (issued (s.deeds r)).Nodup) (hlog : s.log = news ++ u.log)
    {launch earlier : Launch} (hl : .requested r launch ∈ news) (he : .requested r earlier ∈ u.log) :
    launch.batch ≠ earlier.batch := by
  unfold deeds at h
  rw [hlog, List.filterMap_append, issued_append] at h
  intro e
  refine List.disjoint_of_nodup_append h (mem_issued.mpr ⟨launch, mem_marks.mpr hl, rfl⟩) ?_
  exact mem_issued.mpr ⟨earlier, mem_marks.mpr he, e.symm⟩

/-- **Settings are the same for all that is registered.** Let any moves lead to `u` and further ones to `s`, of
    which only the first may give all registered runners new settings, and no other changes settings of a runner;
    if there were moves before `u`, the first one does. So `after` starts with the last time that settings
    changed, or at the very beginning. Then each runner registered in `s` has the settings of the registry, what it
    has in flight was requested since `u` with these settings, and so was every problem that it knows, hence
    every result that it would reuse. And if a batch that such a runner, or one registered in `u`, requested
    before is answered only now, nothing changes: at most the proof is asked for its nodes. -/
theorem settings_coherent (depth : Nat) (proofs : List (String × Tree)) (settings : Settings)
    (before after : List Move) (hkeep : ∀ m ∈ after, m.keepsSettings = true)
    (hlast : ∀ m ∈ after.tail, m.isRefresh = false)
    (hfirst : before = [] ∨ ∃ m ∈ after.head?, m.isRefresh = true) :
    let u := run (perform depth) (start proofs settings) before
    let s := run (perform depth) u after
    ∃ news, s.log = news ++ u.log ∧
      (∀ e ∈ s.registry.entries,
        (s.runner e.2).core.settings = s.registry.settings ∧
        (∀ batch ∈ (s.runner e.2).core.inFlight, ∃ launch, .requested e.2 launch ∈ news ∧
          launch.batch = batch ∧ launch.settings = s.registry.settings) ∧
        (∀ x ∈ (s.runner e.2).core.problems, ∃ launch, .requested e.2 launch ∈ news ∧
          launch.batch = x.batch ∧ launch.settings = s.registry.settings ∧
          ⟨x.node, x.sequent⟩ ∈ launch.problems) ∧
        ∀ q status, (s.runner e.2).core.cachedResult q = some status → ∃ launch,
          .requested e.2 launch ∈ news ∧ launch.settings = s.registry.settings ∧
          ∃ g ∈ launch.problems, g.sequent = q) ∧
      ∀ e ∈ u.registry.entries ++ s.registry.entries, ∀ launch outcomes, .requested e.2 launch ∈ u.log →
        ∃ probes, (∀ x ∈ probes, ∃ phase, x = .probed phase) ∧
          complete (perform depth) s e.2 launch.batch outcomes = s.recordAll probes := by
  intro u s
  have hwired : Wired u := wired_run depth (wired_start proofs settings) before
  -- all registered runners started over in some `b` from which only moves without new settings lead on
  have hbase : ∃ b, Anew u b ∧ Flow (fun i => i.keepsSettings = true) b s := by
    cases after with
    | nil =>
        obtain rfl : before = [] := hfirst.resolve_right fun ⟨_, hm, _⟩ => by cases hm
        exact ⟨u, anew_start proofs settings, .start⟩
    | cons m rest =>
        have hrest : ∀ k ∈ rest, ∀ t i, k.needs t i → i.keepsSettings = true := fun k hk _ _ =>
          keepsSettings_of_needs (hkeep k (List.mem_cons_of_mem _ hk)) (hlast k hk)
        by_cases hm : m.isRefresh = true
        · cases m <;> cases hm
          rename_i chosen
          have hflow : Flow (fun i => i.keepsSettings = true) (u.refreshed chosen)
              (run (perform depth) (move (perform depth) u (.refreshAll chosen)) rest) :=
            flow_run (steady_perform depth) hrest (flow_refreshAll (steady_perform depth) .start)
          exact ⟨u.refreshed chosen, anew_refreshed hwired chosen, hflow⟩
        · obtain rfl : before = [] := hfirst.resolve_right fun ⟨_, hm', hr⟩ => by
            cases hm'
            exact hm hr
          refine ⟨u, anew_start proofs settings, flow_run (steady_perform depth) (fun k hk => ?_) .start⟩
          rcases List.mem_cons.mp hk with rfl | hk
          · exact fun _ _ => keepsSettings_of_needs (hkeep _ List.mem_cons_self) (Bool.eq_false_iff.mpr hm)
          · exact hrest k hk
  obtain ⟨b, hanew, hflow⟩ := hbase
  obtain ⟨hset, news, hlog, hrooted⟩ := coherent_flow hanew (fun _ h => h) hflow
  refine ⟨news, hlog, fun e he => ?_, fun e he launch outcomes hl => ?_⟩
  · obtain ⟨_, hroot⟩ := hrooted e (List.mem_append_right _ he)
    rw [← hset e he]
    refine ⟨rfl, fun batch hb => ?_, fun x hx => ?_, fun q status hq => ?_⟩
    · obtain ⟨launch, hl, hrest⟩ := hroot.flying batch hb
      exact ⟨launch, mem_marks.mp hl, hrest⟩
    · obtain ⟨launch, hl, hrest⟩ := hroot.problems x hx
      exact ⟨launch, mem_marks.mp hl, hrest⟩
    · obtain ⟨x, hx, hxq, _⟩ := Runner.problem_of_cachedResult hq
      obtain ⟨launch, hl, _, hsame, hg⟩ := hroot.problems x hx
      exact ⟨launch, mem_marks.mp hl, hsame, _, hg, hxq⟩
  · obtain ⟨hr, hroot⟩ := hrooted e he
    refine complete_foreign (perform depth) s fun hfly => ?_
    obtain ⟨later, hlater, hbatch, _⟩ := hroot.flying _ hfly
    have hacc : Hosts Runner.Accounted s := by
      have hs : s = run (perform depth) (start proofs settings) (before ++ after) := List.foldl_append.symm
      rw [hs]
      exact accounted_run depth proofs settings (before ++ after)
    exact batch_ne_of_requested (hacc.hosted e.2 hr).once hlog (mem_marks.mp hlater) hl hbatch

/-- A goal is handed out, and before it is answered the settings change: it is handed out again with the new ones,
    and the late answer to the first batch changes nothing. -/
theorem settings_coherent_late :
    let chosen : Settings := { solvers := .ofList [.z3] }
    let other : Settings := { solvers := .ofList [.cvc5] }
    let proofs := [("p", Tree.ofGoals [{ succedent := ["a"] }])]
    let before : List Move := [.select 0]
    let after : List Move := [.refreshAll other, .runner 0 .resume]
    let u := run (perform 1) (start proofs chosen) before
    let s := run (perform 1) u after
    (∀ m ∈ after, m.keepsSettings = true) ∧ (∀ m ∈ after.tail, m.isRefresh = false) ∧
    (∃ m ∈ after.head?, m.isRefresh = true) ∧ (0, 0) ∈ s.registry.entries ∧
    2 ∈ (s.runner 0).core.inFlight ∧ s.registry.settings = other ∧
    (∃ news, s.log = news ++ u.log ∧ ∃ launch, .requested 0 launch ∈ news ∧ launch.batch = 2 ∧
      launch.settings = other) ∧
    .requested 0 ⟨1, chosen, [⟨1, { succedent := ["a"] }⟩]⟩ ∈ u.log ∧
    ∃ probes, complete (perform 1) s 0 1 [{ node := 1, status := .valid }] = s.recordAll probes := by
  intro chosen other proofs before after u s
  have hkeep : ∀ m ∈ after, m.keepsSettings = true := by simp [after, Move.keepsSettings]
  have hlast : ∀ m ∈ after.tail, m.isRefresh = false := by simp [after, Move.isRefresh]
  have hfirst : ∃ m ∈ after.head?, m.isRefresh = true := ⟨_, rfl, rfl⟩
  have he : (0, 0) ∈ s.registry.entries := by decide +kernel
  have hfly : 2 ∈ (s.runner 0).core.inFlight := by decide +kernel
  have hset : s.registry.settings = other := by decide +kernel
  have hold : .requested 0 ⟨1, chosen, [⟨1, { succedent := ["a"] }⟩]⟩ ∈ u.log := by decide +kernel
  obtain ⟨news, hlog, hentry, hlate⟩ :=
    settings_coherent 1 proofs chosen before after hkeep hlast (Or.inr hfirst)
  obtain ⟨launch, hl, hbatch, hsame⟩ := (hentry (0, 0) (by decide +kernel)).2.1 2 (by decide +kernel)
  obtain ⟨probes, _, hdone⟩ := hlate (0, 0) (by decide +kernel) ⟨1, chosen, [⟨1, { succedent := ["a"] }⟩]⟩
    [{ node := 1, status := .valid }] (by decide +kernel)
  exact ⟨hkeep, hlast, hfirst, he, hfly, hset,
    ⟨news, hlog, launch, hl, hbatch, hsame.trans (by decide +kernel)⟩, hold, probes, hdone⟩

end Session

end GoalWatch
