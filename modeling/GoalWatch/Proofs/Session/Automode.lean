import GoalWatch.Proofs.Runner.Generation
import GoalWatch.Proofs.Session.Flow

/-!
# Automatic mode

From the moment a runner is shown that automatic mode has started until it is shown that it has stopped, it hands
out nothing, whoever asks for it. With the stop it hands out, in one batch, what it has not handed out.

* `Session.told?`, `Session.automode` -- what a runner was shown last of automatic mode;
* `Runner.Stint.rests` -- a runner that takes no batches keeps to that, and hands out nothing;
* `Session.Obeys` -- what was written down since some moment agrees with automatic mode;
* `obeys_beat`, `obeys_flow` -- one step keeps this, and so does everything that goes on;
* `pick_openGoals`, `log_dispatchOpen` -- what is handed out at the stop;
* **`automode_defers`** -- nothing in automatic mode, and all that is left at its end.
-/

namespace GoalWatch

/-! ## 1. What a runner is shown -/

/-- What an event says about automatic mode. -/
def Event.automode? : Event → Option Bool
  | .autoModeStarted => some true
  | .autoModeStopped => some false
  | .ruleApplied _ | .treeStructureChanged | .proofClosed => none

/-- **A runner that takes no batches keeps to that** and has nothing new in mind, or it takes batches and hands
    out one. -/
theorem Runner.Stint.rests {c c' : Runner} {ds : List Deed} (h : c.Stint ds c') :
    ((∀ launch, .launched launch ∉ ds) ∧ (c.accepting = false → c'.accepting = false) ∧
      ∀ n ∈ c'.dispatched, n ∈ c.dispatched) ∨
    ∃ launch, ds = [.launched launch] ∧ c.accepting = true ∧
      ∀ n ∈ c'.dispatched, n ∈ c.dispatched ∨ n ∈ launch.nodes := by
  cases h with
  | dispatch mode goals =>
      rcases Runner.dispatchOpen_eq c mode goals with ⟨⟨next, e⟩, _⟩ | ⟨ha, _, _, e⟩
      · rw [e]
        exact Or.inl ⟨fun _ h => absurd h List.not_mem_nil, id, fun _ => id⟩
      · rw [e]
        refine Or.inr ⟨_, rfl, ha, fun n hn => ?_⟩
        simpa [Launch.nodes, Runner.launchOf] using mem_addNodes.mp hn
  | suspend =>
      refine Or.inl ⟨fun _ h => absurd h List.not_mem_nil, fun _ => Runner.suspend_accepting, fun n hn => ?_⟩
      unfold Runner.suspend at hn
      split at hn <;> exact hn
  | complete h =>
      obtain ⟨_, rfl⟩ := Runner.complete_cases.mp h
      exact Or.inl ⟨by simp, id, fun _ => id⟩
  | stopAll => exact Or.inl ⟨by simp, id, fun _ => id⟩
  | close =>
      refine Or.inl ⟨by simp, fun ha => ?_, fun n hn => ?_⟩
      · unfold Runner.close
        split
        · exact ha
        · rfl
      · unfold Runner.close at hn
        split at hn
        · exact hn
        · exact absurd hn List.not_mem_nil

namespace Session

variable {A : Intervention → Prop} {b s s' : Session} {p : ProofId} {r k : RunnerId} {x : Subscriber}
  {news es : List Entry}

/-- What an entry says to a runner about automatic mode, if it is subscribed as it was in `b`. -/
def told? (b : Session) (r : RunnerId) : Entry → Option Bool
  | .shown p id e => if ⟨id, .runner r⟩ ∈ (b.proof p).subscribers then e.automode? else none
  | _ => none

/-- **Whether automatic mode is on for a runner** that was there in `b`, after what was written down since: what
    it was shown last, or whether it was on in `b`. -/
def automode (b : Session) (r : RunnerId) (news : List Entry) : Bool :=
  (news.findSome? (b.told? r)).getD (b.runner r).core.suspended

theorem automode_append (h : ∀ e ∈ es, b.told? r e = none) : b.automode r (es ++ news) = b.automode r news := by
  unfold automode
  rw [List.findSome?_append, List.findSome?_eq_none_iff.mpr h]
  rfl

/-- Only the runner itself has its number. -/
theorem sink_of_known (hb : (b.proof p).Numbered) (hx : Known b p x)
    (hm : ⟨x.id, .runner r⟩ ∈ (b.proof p).subscribers) : x.sink = .runner r := by
  rcases hx with hx | ⟨hnext, _⟩
  · rw [List.inj_on_of_nodup_map hb.nodup hx hm rfl]
  · exact absurd (hb.below _ hm) (Nat.not_lt.mpr hnext)

/-- A runner that was there is subscribed as it was. -/
theorem mem_of_known (hr : r < b.runners.length) (hx : Known b p x) (hk : x.sink = .runner r) :
    ⟨x.id, .runner r⟩ ∈ (b.proof p).subscribers := by
  rcases hx with hx | ⟨_, hlate⟩
  · rw [← hk]
    exact hx
  · exact absurd hr (Nat.not_lt.mpr (hlate r hk))

/-! ## 2. One step -/

/-- **What was written down since `b` agrees with automatic mode**: while it is on, the runner takes no batches;
    when it handed out a batch, it was off; and every node that came into mind was handed out. -/
structure Obeys (b : Session) (r : RunnerId) (s : Session) (news : List Entry) : Prop where
  log : s.log = news ++ b.log
  rests : b.automode r news = true → (s.runner r).core.accepting = false
  asked : ∀ launch earlier, (.requested r launch :: earlier) <:+ news → b.automode r earlier = false
  added : ∀ n ∈ (s.runner r).core.dispatched, n ∈ (b.runner r).core.dispatched ∨
    ∃ launch, .requested r launch ∈ news ∧ n ∈ launch.nodes

theorem suffix_of_not_mem {α : Type} {a : α} {l more rest : List α} (h : a ∉ more)
    (hs : (a :: l) <:+ more ++ rest) : (a :: l) <:+ rest := by
  induction more with
  | nil => exact hs
  | cons c more ih =>
      rcases List.suffix_cons_iff.mp hs with e | hs
      · cases e
        exact absurd List.mem_cons_self h
      · exact ih (fun hm => h (List.mem_cons_of_mem _ hm)) hs

/-- A step by which the runner hands out nothing. -/
theorem Obeys.grow (h : Obeys b r s news) (hlog : s'.log = es ++ s.log)
    (hes : ∀ launch, .requested r launch ∉ es)
    (hrests : b.automode r (es ++ news) = true → (s'.runner r).core.accepting = false)
    (hadded : ∀ n ∈ (s'.runner r).core.dispatched, n ∈ (s.runner r).core.dispatched) :
    Obeys b r s' (es ++ news) where
  log := by rw [hlog, h.log, List.append_assoc]
  rests := hrests
  asked launch earlier hs := h.asked launch earlier (suffix_of_not_mem (hes launch) hs)
  added n hn := by
    rcases h.added n (hadded n hn) with hn | ⟨launch, hl, hn⟩
    · exact Or.inl hn
    · exact Or.inr ⟨launch, List.mem_append_right _ hl, hn⟩

/-- A step in which automatic mode is not spoken of and the runner hands out nothing. -/
theorem Obeys.idle (h : Obeys b r s news) (hlog : s'.log = es ++ s.log)
    (hes : ∀ e ∈ es, b.told? r e = none ∧ ∀ launch, e ≠ .requested r launch)
    (hrests : (s.runner r).core.accepting = false → (s'.runner r).core.accepting = false)
    (hadded : ∀ n ∈ (s'.runner r).core.dispatched, n ∈ (s.runner r).core.dispatched) :
    ∃ news, Obeys b r s' news := by
  refine ⟨es ++ news, h.grow hlog (fun launch hm => (hes _ hm).2 launch rfl) (fun ha => ?_) hadded⟩
  rw [automode_append fun e he => (hes e he).1] at ha
  exact hrests (h.rests ha)

/-- A step that leaves the runner alone. -/
theorem Obeys.same (h : Obeys b r s news) (hlog : s'.log = es ++ s.log)
    (hes : ∀ e ∈ es, b.told? r e = none ∧ ∀ launch, e ≠ .requested r launch)
    (hcore : (s'.runner r).core = (s.runner r).core) : ∃ news, Obeys b r s' news :=
  h.idle hlog hes (by rw [hcore]; exact id) (by rw [hcore]; exact fun _ => id)

/-- A step in which nothing is written down. -/
theorem Obeys.still (h : Obeys b r s news) (hlog : s'.log = s.log)
    (hcore : (s'.runner r).core = (s.runner r).core) : ∃ news, Obeys b r s' news :=
  h.same (hlog.trans (List.nil_append _).symm) (fun _ he => absurd he List.not_mem_nil) hcore

theorem told?_entry (d : Deed) : b.told? r (d.entry k) = none := by cases d <;> rfl

/-- Something happens to some runner of itself. -/
theorem obeys_act (h : Obeys b r s news) (hr : r < s.runners.length) {ds : List Deed} {core : Runner}
    (hc : (s.runner k).core.Stint ds core) (hlog : s'.log = ds.map (Deed.entry k) ++ s.log)
    (hrun : s'.runner = (s.setCore k core).runner) : ∃ news, Obeys b r s' news := by
  by_cases hk : r = k
  · subst hk
    have hcore : (s'.runner r).core = core := by rw [hrun, core_setCore_self core hr]
    rcases hc.rests with ⟨hno, hrests, hadded⟩ | ⟨launch, rfl, ha, hadded⟩
    · refine h.idle hlog (fun e he => ?_) (by rw [hcore]; exact hrests) (by rw [hcore]; exact hadded)
      obtain ⟨d, hd, rfl⟩ := List.mem_map.mp he
      refine ⟨told?_entry d, fun launch e => ?_⟩
      cases d <;> cases e
      exact hno launch hd
    · -- the runner takes batches, so automatic mode is off
      have hoff : b.automode r news = false := by
        refine Bool.eq_false_iff.mpr fun hon => ?_
        rw [h.rests hon] at ha
        cases ha
      refine ⟨.requested r launch :: news, by rw [hlog, h.log]; rfl, fun hon => ?_, fun l earlier hs => ?_,
        fun n hn => ?_⟩
      · have hsame : b.automode r (.requested r launch :: news) = b.automode r news := rfl
        rw [hsame, hoff] at hon
        cases hon
      · rcases List.suffix_cons_iff.mp hs with e | hs
        · cases e
          exact hoff
        · exact h.asked l earlier hs
      · rw [hcore] at hn
        rcases hadded n hn with hn | hn
        · refine (h.added n hn).imp id fun ⟨l, hl, hn⟩ => ⟨l, List.mem_cons_of_mem _ hl, hn⟩
        · exact Or.inr ⟨launch, List.mem_cons_self, hn⟩
  · refine h.same hlog (fun e he => ?_) (by rw [hrun, core_setCore_of_ne core hk])
    obtain ⟨d, _, rfl⟩ := List.mem_map.mp he
    refine ⟨told?_entry d, fun launch e => ?_⟩
    cases d <;> cases e
    exact hk rfl

theorem core_heed_other {sink : Sink} (h : sink ≠ .runner r) (e : Event) :
    ((s.heed sink e).runner r).core = (s.runner r).core := by
  unfold heed
  split
  · exact core_setCore_of_ne _ fun e => h (e ▸ rfl)
  · exact core_setCore_of_ne _ fun e => h (e ▸ rfl)
  · rfl

/-- **Someone is shown an event**, perhaps the runner. -/
theorem obeys_shown (hb : (b.proof p).Numbered) (hl : r < b.runners.length) (h : Obeys b r s news)
    (hr : r < s.runners.length) (hx : Known b p x) (e : Event) :
    ∃ news, Obeys b r ((s.record (.shown p x.id e)).heed x.sink e) news := by
  have hlog : ((s.record (.shown p x.id e)).heed x.sink e).log = [.shown p x.id e] ++ s.log := by
    unfold heed
    split <;> rfl
  by_cases hk : x.sink = .runner r
  · have hm := mem_of_known hl hx hk
    rw [hk] at hlog ⊢
    cases e with
    | autoModeStarted =>
        have hcore := core_setCore_self (s := s.record (.shown p x.id .autoModeStarted))
          (s.runner r).core.suspend hr
        refine ⟨_, h.grow hlog (by simp) (fun _ => ?_) fun n hn => ?_⟩
        · exact (congrArg Runner.accepting hcore).trans Runner.suspend_accepting
        · have hn : n ∈ (s.runner r).core.suspend.dispatched := hcore ▸ hn
          unfold Runner.suspend at hn
          split at hn <;> exact hn
    | autoModeStopped =>
        have hcore := core_setCore_self (s := s.record (.shown p x.id .autoModeStopped))
          (s.runner r).core.unsuspend hr
        refine ⟨_, h.grow hlog (by simp) (fun hon => ?_) fun n hn => ?_⟩
        · have hoff : b.automode r ([.shown p x.id .autoModeStopped] ++ news) = false := by
            simp [automode, told?, hm, Event.automode?]
          rw [hoff] at hon
          cases hon
        · have hn : n ∈ (s.runner r).core.unsuspend.dispatched := hcore ▸ hn
          unfold Runner.unsuspend at hn
          split at hn <;> exact hn
    | ruleApplied | treeStructureChanged | proofClosed =>
        refine h.same hlog (fun y hy => ?_) rfl
        rw [List.mem_singleton.mp hy]
        exact ⟨by simp [told?, Event.automode?], fun _ e => by cases e⟩
  · refine h.same hlog (fun y hy => ?_) (core_heed_other hk e)
    rw [List.mem_singleton.mp hy]
    -- nobody else has the runner's number
    exact ⟨if_neg fun hm => hk (sink_of_known hb hx hm), fun _ e => by cases e⟩

/-- **Something is done by hand**, other than taking the runner out of automatic mode. -/
theorem obeys_intervene (h : Obeys b r s news) (hr : r < s.runners.length) {i : Intervention}
    (hi : i ≠ .unsuspend r) : ∃ news, Obeys b r (s.intervene i) news := by
  cases i with
  | settings | present | activate => exact h.still rfl rfl
  | refresh k chosen =>
      have hes : ∀ e ∈ ((s.runner k).core.inFlight.map (Entry.stopped k)).reverse,
          b.told? r e = none ∧ ∀ launch, e ≠ .requested r launch := by
        intro e he
        obtain ⟨batch, _, rfl⟩ := List.mem_map.mp (List.mem_reverse.mp he)
        exact ⟨rfl, fun _ e => by cases e⟩
      by_cases hk : r = k
      · subst hk
        have hcore := core_setCore_self ((s.runner r).core.refresh chosen).2 hr
        refine h.idle rfl hes (fun ha => ?_) fun n hn => ?_
        · exact (congrArg Runner.accepting hcore).trans ha
        · exact absurd (hcore ▸ hn : n ∈ ((s.runner r).core.refresh chosen).2.dispatched) List.not_mem_nil
      · exact h.same rfl hes (core_setCore_of_ne _ hk)
  | setSolvers k solvers =>
      by_cases hk : r = k
      · subst hk
        have hcore := core_setCore_self ((s.runner r).core.setSolvers solvers) hr
        refine h.idle (List.nil_append _).symm (fun _ he => absurd he List.not_mem_nil) (fun ha => ?_)
          fun n hn => ?_
        · exact (congrArg Runner.accepting hcore).trans ha
        · exact (hcore ▸ hn : n ∈ ((s.runner r).core.setSolvers solvers).dispatched)
      · exact h.still rfl (core_setCore_of_ne _ hk)
  | unsuspend k =>
      exact h.still rfl (core_setCore_of_ne _ fun e => hi (e ▸ rfl))

/-- **Every step agrees with automatic mode.** -/
theorem obeys_beat (hb : ∀ p, (b.proof p).Numbered) (hl : r < b.runners.length) (hA : ¬ A (.unsuspend r))
    (h : Obeys b r s news) (hr : r < s.runners.length) (hs : Beat A b s s') : ∃ news, Obeys b r s' news := by
  cases hs with
  | note es hes =>
      have hlog : (s.recordAll es).log = es.reverse ++ s.log := rfl
      refine h.same hlog (fun e he => ?_) rfl
      have hnote := hes e (List.mem_reverse.mp he)
      refine ⟨?_, fun launch e => ?_⟩
      · cases e <;> first | rfl | cases hnote
      · subst e
        cases hnote
  | shown hx e => exact obeys_shown (hb _) hl h hr hx e
  | watch | subscribe | desk | enrol | clients | tasks => exact h.still rfl rfl
  | enlist p settings =>
      exact h.still rfl (by rw [runner_enlist_of_lt settings hr])
  | host k f hf =>
      refine h.still rfl ?_
      rcases runner_modifyRunner_cases (s := s) (r := k) (k := r) f with e | ⟨_, _, e⟩
      · rw [e]
      · rw [e, hf]
  | act k tasks hc => exact obeys_act h hr hc rfl rfl
  | byHand hi => exact obeys_intervene h hr fun e => hA (e ▸ hi)

/-- **All that goes on agrees with automatic mode.** -/
theorem obeys_flow (hb : ∀ p, (b.proof p).Numbered) (hl : r < b.runners.length) (hA : ¬ A (.unsuspend r))
    (h : Flow A b s) : ∃ news, Obeys b r s news := by
  refine flow_keep (I := fun s => ∃ news, Obeys b r s news) (fun hf ⟨_, h⟩ hs => ?_) ⟨[], ?_⟩ h
  · exact obeys_beat hb hl hA h (Nat.lt_of_lt_of_le hl hf.numbers.runners) hs
  · refine ⟨rfl, fun hon => ?_, fun _ _ hs => absurd hs (by simp), fun _ => Or.inl⟩
    have hsus : (b.runner r).core.suspended = true := hon
    simp [Runner.accepting, hsus]

/-! ## 3. The end of automatic mode -/

/-- Listed twice or not, what a fresh dispatch of the open goals picks are those not kept in mind. -/
theorem pick_openGoals (c : Runner) (w : Watched) :
    c.pick .fresh w.openGoals = w.tree.goals.filter fun g => !c.dispatched.contains g.node := by
  have hnodup : (w.tree.goals.map Goal.node).Nodup :=
    List.pairwise_map.mpr (w.tree.goals_pairwise.imp Nat.ne_of_lt)
  have hfirst : firstPerNode w.openGoals = w.tree.goals := by
    unfold Watched.openGoals
    split
    · rw [firstPerNode_append, firstPerNode_eq_self hnodup, List.filter_eq_nil_iff.mpr, List.append_nil]
      intro g hg
      simpa using ⟨g, hg, rfl⟩
    · exact firstPerNode_eq_self hnodup
  unfold Runner.pick
  rw [hfirst]
  rfl

/-- What a dispatch of the open goals writes down: questions to the proof, and the batch if there is one. -/
theorem log_dispatchOpen (s : Session) (r : RunnerId) (mode : Mode) :
    ∃ probes, (∀ e ∈ probes, ∃ phase, e = .probed phase) ∧
      (s.dispatchOpen r mode).2.log = ((s.runner r).core.dispatchOpen mode
        (s.proof (s.runner r).proof).openGoals).1.toList.map (.requested r) ++ (probes ++ s.log) := by
  unfold dispatchOpen
  simp only
  split
  · obtain ⟨es, hes, e⟩ := probe_eq (s := s) (p := (s.runner r).proof) r .dispatching
    refine ⟨es.reverse, fun x hx => hes x (List.mem_reverse.mp hx), ?_⟩
    rw [e, proof_recordAll]
    unfold takeLaunch
    split
    · rename_i hn
      rw [hn]
      rfl
    · rename_i launch hl
      rw [hl]
      rfl
  · rename_i hacc
    refine ⟨[], fun _ h => absurd h List.not_mem_nil, ?_⟩
    unfold Runner.dispatchOpen
    rw [if_neg hacc]
    rfl

/-- **What a runner that is open hands out at the end of automatic mode.** -/
theorem launch_unsuspend {c : Runner} (hopen : c.closed = false) (w : Watched) :
    ((c.unsuspend.dispatchOpen .fresh w.openGoals).1.isSome = true ↔
      c.settings.hasSolvers = true ∧ ∃ g ∈ w.tree.goals, g.node ∉ c.dispatched) ∧
    ∀ l ∈ (c.unsuspend.dispatchOpen .fresh w.openGoals).1,
      l.problems = w.tree.goals.filter fun g => !c.dispatched.contains g.node := by
  have hun : c.unsuspend = { c with suspended := false } := by
    unfold Runner.unsuspend
    rw [if_neg (by simp [hopen])]
  have hacc : c.unsuspend.accepting = true := by simp [hun, Runner.accepting, hopen]
  have hpick : c.unsuspend.pick .fresh w.openGoals =
      w.tree.goals.filter fun g => !c.dispatched.contains g.node := by
    rw [pick_openGoals, hun]
  have hset : c.unsuspend.settings = c.settings := by rw [hun]
  have hsome : c.unsuspend.pick .fresh w.openGoals ≠ [] ↔ ∃ g ∈ w.tree.goals, g.node ∉ c.dispatched := by
    rw [hpick]
    simp [List.filter_eq_nil_iff]
  rcases Runner.dispatchOpen_eq c.unsuspend .fresh w.openGoals with ⟨⟨next, e⟩, hn⟩ | ⟨_, hs, hne, e⟩
  · rw [e]
    refine ⟨⟨fun h => (by cases h), fun h => ?_⟩, fun _ h => by cases h⟩
    exact absurd (hn hacc (hset ▸ h.1)) (hsome.mpr h.2)
  · rw [e]
    refine ⟨⟨fun _ => ⟨hset ▸ hs, hsome.mp hne⟩, fun _ => rfl⟩, fun l hl => ?_⟩
    cases hl
    exact hpick

theorem automode_of_untold (h : ∀ e ∈ news, b.told? r e ≠ some false)
    (hb : (b.runner r).core.suspended = true) : b.automode r news = true := by
  unfold automode
  cases hf : news.findSome? (b.told? r) with
  | none => exact hb
  | some v =>
      obtain ⟨e, he, hv⟩ := List.exists_of_findSome?_eq_some hf
      cases v with
      | true => rfl
      | false => exact absurd hv (h e he)

/-! ## 4. Every run -/

theorem numbered_start (proofs : List (String × Tree)) (settings : Settings) (p : ProofId) :
    ((start proofs settings).proof p).Numbered := by
  refine ⟨?_, fun x hx => ?_⟩
  · rw [(proof_start proofs settings p).1]
    exact List.nodup_nil
  · rw [(proof_start proofs settings p).1] at hx
    exact absurd hx List.not_mem_nil

/-- **In automatic mode nothing is handed out.** Let `s` be a session after any moves and `r` one of its runners,
    and let any further moves lead to `t`, of which none takes `r` out of automatic mode by hand; clients may
    ask for anything while they are called. Of what was written down since `s`, no batch of `r` was requested
    while automatic mode was on for it, that is, after `r` was shown its start, or if it was on in `s`, and
    before `r` was shown its stop; and no other node came into mind than those handed out with such a batch. So
    if it was on in `s` and `r` was not shown its stop, no batch was requested and no node came into mind. When
    automatic mode stops for a runner that has not ended, be it by an event or by hand, at most one batch is
    requested: one with exactly the open goals that are not kept in mind, if there are any and a solver
    that can answer in the background is selected. -/
theorem automode_defers (depth : Nat) (proofs : List (String × Tree)) (settings : Settings)
    (moves later : List Move) (r : RunnerId)
    (hr : r < (run (perform depth) (start proofs settings) moves).runners.length)
    (hl : .runner r .autoStopped ∉ later) :
    let s := run (perform depth) (start proofs settings) moves
    let t := run (perform depth) s later
    (∃ news, t.log = news ++ s.log ∧
      (∀ launch earlier, (.requested r launch :: earlier) <:+ news → s.automode r earlier = false) ∧
      (∀ n ∈ (t.runner r).core.dispatched, n ∈ (s.runner r).core.dispatched ∨
        ∃ launch, .requested r launch ∈ news ∧ n ∈ launch.nodes) ∧
      ((s.runner r).core.suspended = true → (∀ e ∈ news, s.told? r e ≠ some false) →
        (∀ launch, .requested r launch ∉ news) ∧
        ∀ n ∈ (t.runner r).core.dispatched, n ∈ (s.runner r).core.dispatched)) ∧
    ∀ u : Session, r < u.runners.length → (u.runner r).core.closed = false →
      ∃ (launch : Option Launch) (probes : List Entry), (∀ e ∈ probes, ∃ phase, e = .probed phase) ∧
        (u.autoStopped r).2.log = launch.toList.map (.requested r) ++ (probes ++ u.log) ∧
        (launch.isSome = true ↔ (u.runner r).core.settings.hasSolvers = true ∧
          ∃ g ∈ (u.proof (u.runner r).proof).tree.goals, g.node ∉ (u.runner r).core.dispatched) ∧
        ∀ l ∈ launch, l.problems = (u.proof (u.runner r).proof).tree.goals.filter fun g =>
          !(u.runner r).core.dispatched.contains g.node := by
  intro s t
  refine ⟨?_, fun u hu hopen => ?_⟩
  · have hnum : ∀ p, (s.proof p).Numbered := fun p =>
      (flow_run (A := fun _ => True) (steady_perform depth) (fun _ _ _ _ _ => trivial) .start).numbered
        (numbered_start proofs settings p)
    have hflow : Flow (· ≠ .unsuspend r) s t := by
      refine flow_run (steady_perform depth) (fun m hm u i hi e => ?_) .start
      subst e
      cases m with
      | runner k call =>
          cases call with
          | autoStopped =>
              cases hi
              exact hl hm
          | refresh | setSolvers => cases hi
          | dispatch | resume | ruleApplied | autoStarted | treeChanged | close | completed | stopAll => exact hi
      | refreshAll chosen =>
          rcases hi with hi | ⟨_, _, hi⟩ <;> cases hi
      | present | select | newRunner => cases hi
      | applyResult | shutdownAll | proof | finish | listen | subscribe | dispose =>
          exact hi
    obtain ⟨news, h⟩ := obeys_flow hnum hr (fun h => h rfl) hflow
    refine ⟨news, h.log, h.asked, h.added, fun hsus huntold => ?_⟩
    have hno : ∀ launch, .requested r launch ∉ news := by
      intro launch hm
      obtain ⟨after, before, rfl⟩ := List.append_of_mem hm
      have hoff := h.asked launch before (List.suffix_append _ _)
      rw [automode_of_untold (fun e he => huntold e (by simp [he])) hsus] at hoff
      cases hoff
    exact ⟨hno, fun n hn => (h.added n hn).resolve_right fun ⟨launch, hm, _⟩ => hno launch hm⟩
  · have hcore := core_setCore_self (u.runner r).core.unsuspend hu
    have hproof : ((u.setCore r (u.runner r).core.unsuspend).runner r).proof = (u.runner r).proof := by
      rw [setCore, runner_modifyRunner_self _ hu]
    obtain ⟨probes, hprobes, hlog⟩ := log_dispatchOpen (u.setCore r (u.runner r).core.unsuspend) r .fresh
    rw [hcore, hproof] at hlog
    obtain ⟨hiff, hgoals⟩ := launch_unsuspend hopen (u.proof (u.runner r).proof)
    exact ⟨_, probes, hprobes, hlog, hiff, hgoals⟩

/-- In automatic mode a goal is split, a retry is asked for and the settings are given out anew: nothing is handed
    out. When it stops, both new goals are handed out in one batch. -/
theorem automode_defers_split :
    let chosen : Settings := { solvers := .ofList [.z3] }
    let proofs := [("p", Tree.ofGoals [{ succedent := ["a"] }])]
    let moves : List Move := [.select 0, .proof 0 .startAuto]
    let later : List Move := [.proof 0 (.applyRule 1 "split" [{ succedent := ["b"] }, { succedent := ["c"] }]),
      .runner 0 .resume, .refreshAll chosen]
    let s := run (perform 1) (start proofs chosen) moves
    let t := run (perform 1) s later
    0 < s.runners.length ∧ .runner 0 .autoStopped ∉ later ∧ (s.runner 0).core.suspended = true ∧
    (∃ news, t.log = news ++ s.log ∧ ∀ launch, .requested 0 launch ∉ news) ∧
    ∃ launch probes, (t.autoStopped 0).2.log = .requested 0 launch :: (probes ++ t.log) ∧
      launch.nodes = [2, 3] := by
  intro chosen proofs moves later s t
  have hr : 0 < s.runners.length := by decide +kernel
  have hl : .runner 0 .autoStopped ∉ later := by simp [later]
  have hsus : (s.runner 0).core.suspended = true := by decide +kernel
  have ht : 0 < t.runners.length ∧ (t.runner 0).core.closed = false := by decide +kernel
  obtain ⟨⟨news, hlog, _, _, hquiet⟩, hstop⟩ := automode_defers 1 proofs chosen moves later 0 hr hl
  have hnews : news = t.log.take 4 := by
    refine List.append_cancel_right (hlog.symm.trans ?_)
    decide +kernel
  have huntold : ∀ e ∈ news, s.told? 0 e ≠ some false := by
    rw [hnews]
    decide +kernel
  obtain ⟨launch, probes, _, hlaunch, hiff, hgoals⟩ := hstop t ht.1 ht.2
  have hsome : launch.isSome = true := hiff.mpr (by decide +kernel)
  obtain ⟨launch, rfl⟩ := Option.isSome_iff_exists.mp hsome
  refine ⟨hr, hl, hsus, ⟨news, hlog, (hquiet (by decide +kernel) huntold).1⟩, launch, probes, hlaunch, ?_⟩
  unfold Launch.nodes
  rw [hgoals launch rfl]
  decide +kernel

end Session

end GoalWatch
