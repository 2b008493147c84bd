import GoalWatch.Proofs.Session.Calm.Events

/-!
# Moves of a session without clients

* `Move.isPlain` -- the move of a user or of the launcher, no event held back;
* `select_eq` -- a selection during which nothing else happens;
* `Session.admitted`, `Calm.admit`, `settled_select` -- a proof is selected, with a new runner if need be;
* `settled_refreshAll` -- new settings;
* `same_complete`, `settled_complete` -- answers arrive;
* `settled_move`, `settled_run` -- every plain move keeps a session settled, and so does every run of them.
-/

namespace GoalWatch

/-- The call changes the proof or tells of its automatic mode, and holds back no event. -/
def ProofCall.isMutation : ProofCall → Bool
  | .applyRule .. | .prune _ | .startAuto | .stopAuto => true
  | .pause | .resume | .unsubscribe _ => false

/-- The move comes from a user of one of the given number of proofs, or from the launcher; no event is held
    back and nobody else starts to listen. -/
def Move.isPlain (count : Nat) : Move → Bool
  | .select p => p < count
  | .applyResult _ | .refreshAll _ | .finish .. | .runner _ (.completed ..) => true
  | .proof _ call => call.isMutation
  | _ => false

namespace Session

variable {s s' : Session} {p : ProofId} {r : RunnerId} {again : Again}

/-! ## 1. Selecting proofs -/

theorem settled_stopAll (h : Settled s) (he : s.registry.runnerFor? p = some r) : Settled (s.stopAll r) := by
  have hT := h.tended p r he
  have hset : Settled (s.setCore r (s.runner r).core.stopAll.2) :=
    settled_setCore h he hT.alive (Runner.consistent_act hT.consistent .stopAll)
      (Runner.tends_stopAll hT.tends) fun hact => h.attends p r hact he
  exact hset.same (same_giveUp _)

theorem settled_leaveActive (h : Settled s) : Settled (s.leaveActive p) := by
  unfold leaveActive
  split
  · exact h
  · split
    · rename_i r hact
      obtain ⟨q, _, he⟩ := Option.bind_eq_some_iff.mp hact
      exact settled_stopAll h he
    · exact h

theorem registry_leaveActive : (s.leaveActive p).registry = s.registry := by
  unfold leaveActive
  split
  · rfl
  · split <;> rfl

/-- **The active runner hands out its open goals**, whatever it did before. -/
theorem settled_dispatchOpen (h : Calm s) (he : s.registry.runnerFor? p = some r)
    (hact : s.registry.active = some p) (mode : Mode) : Settled (s.dispatchOpen r mode).2 := by
  have hT := h.tended p r he
  have hd := same_dispatchOpen (s := s) (r := r) mode
  rw [hT.watches, h.openGoals] at hd
  have hcalm : Calm (s.setCore r ((s.runner r).core.dispatchOpen mode (s.proof p).tree.goals).2) :=
    (h.put he (by rw [Runner.dispatchOpen_closed]; exact hT.alive)
      (Runner.consistent_dispatchOpen hT.consistent mode _)
      (Runner.tends_dispatchOpen hT.tends fun _ => id)).same (same_setTree_self.setCore _).symm
  refine Settled.same ⟨hcalm, fun q k hq hk => ?_⟩ hd
  cases hq.symm.trans hact
  cases hk.symm.trans he
  rw [Session.setCore, runner_modifyRunner_self _ hT.runnerIn]
  exact Runner.attends_dispatchOpen hT.consistent mode

theorem settled_notifyObservers (h : Settled s) : Settled (notifyObservers again s) := by
  rw [notifyObservers_none h.observers]
  exact h

theorem Calm.setActive (h : Calm s) (p : ProofId) :
    Calm { s with registry := { s.registry with active := some p } } :=
  ⟨h.observers, h.plain, h.quiet, h.idle, h.listed, fun q k hq =>
    (h.tended q k hq).frame rfl (Nat.le_refl _) rfl rfl⟩

theorem settled_activate (h : Calm s) (he : s.registry.runnerFor? p = some r) (mode : Mode) :
    Settled (activate again s p r mode).2 :=
  settled_notifyObservers (settled_dispatchOpen (h.setActive p) he rfl mode)

theorem runnerFor?_snoc (entries : List (ProofId × RunnerId)) (q : ProofId) :
    (entries ++ [(p, r)]).lookup q = (entries.lookup q).or (if q = p then some r else none) := by
  rw [List.lookup_append]
  by_cases hq : q = p
  · simp [hq]
  · rw [List.lookup_cons, show (q == p) = false from beq_eq_false_iff_ne.mpr hq, if_neg hq]
    rfl

/-- **One more runner is registered**, for a proof that has none; all else stays. -/
theorem Calm.admit (h : Calm s) (he : s.registry.runnerFor? p = none)
    (hreg : s'.registry = { s.registry with entries := s.registry.entries ++ [(p, r)] })
    (hproofs : s'.proofs.length = s.proofs.length) (hproof : ∀ q ≠ p, s'.proof q = s.proof q)
    (hplain : (s'.proof p).facade = {} ∧ (s'.proof p).paused = 0 ∧ (s'.proof p).held = [])
    (hrunners : s.runners.length ≤ s'.runners.length) (hrunner : ∀ k ≠ r, s'.runner k = s.runner k)
    (hfree : s.runners.length ≤ r) (hT : Tended s' p r) :
    Calm s' ∧ s'.registry.runnerFor? p = some r := by
  have hfor : ∀ q, s'.registry.runnerFor? q =
      (s.registry.runnerFor? q).or (if q = p then some r else none) := by
    intro q
    rw [hreg]
    exact runnerFor?_snoc s.registry.entries q
  have hpr : s'.registry.runnerFor? p = some r := by
    rw [hfor, he, if_pos rfl]
    rfl
  -- what was registered before still is
  have hold : ∀ {q k}, s.registry.runnerFor? q = some k → s'.registry.runnerFor? q = some k := by
    intro q k hq
    rw [hfor, hq]
    rfl
  refine ⟨⟨?_, fun q => ?_, fun q hq => ?_, fun k hk => ?_, fun e hm => ?_, fun q k hq => ?_⟩, hpr⟩
  · rw [hreg]
    exact h.observers
  · by_cases hqp : q = p
    · exact hqp ▸ hplain
    · rw [hproof q hqp]
      exact h.plain q
  · have hqp : q ≠ p := by
      rintro rfl
      cases hq.symm.trans hpr
    rw [hfor, if_neg hqp, Option.or_none] at hq
    rw [hproof q hqp]
    exact h.quiet q hq
  · rw [hrunner k fun e => hk p (e ▸ hpr)]
    exact h.idle k fun q hq => hk q (hold hq)
  · rw [hreg] at hm
    rcases List.mem_append.mp hm with hm | hm
    · exact hold (h.listed e hm)
    · cases List.mem_singleton.mp hm
      exact hpr
  · by_cases hqp : q = p
    · subst hqp
      cases hq.symm.trans hpr
      exact hT
    · rw [hfor, if_neg hqp, Option.or_none] at hq
      have hTq := h.tended q k hq
      exact hTq.frame hproofs hrunners (hrunner k (Nat.ne_of_lt (Nat.lt_of_lt_of_le hTq.runnerIn hfree)))
        (hproof q hqp)

/-- The session in which a new runner is registered for a proof. -/
def admitted (s : Session) (p : ProofId) (settings : Settings) : Session :=
  let t := ((s.enlist p settings).2.addTarget s.runners.length (.registry p)).setStanding
    s.runners.length .held
  { t with registry := { t.registry with entries := t.registry.entries ++ [(p, s.runners.length)] } }

/-- A candidate is registered for a proof that has no runner. -/
theorem register_enlist (again : Again) (he : s.registry.runnerFor? p = none) (settings : Settings) :
    register again (s.enlist p settings).2 p s.runners.length =
      (s.runners.length, s.admitted p settings) := by
  have hnone : ((s.enlist p settings).2.addTarget s.runners.length (.registry p)).registry.runnerFor? p =
    none := he
  unfold register
  simp only [hnone]
  rfl

theorem length_admitted (settings : Settings) :
    (s.admitted p settings).runners.length = s.runners.length + 1 := by
  show (((s.enlist p settings).2.addTarget s.runners.length (.registry p)).setStanding
    s.runners.length .held).runners.length = _
  rw [setStanding, addTarget, length_modifyRunner, length_modifyRunner, length_enlist]

/-- The new runner tells nobody but the registry. -/
theorem runner_admitted (settings : Settings) : (s.admitted p settings).runner s.runners.length =
    { proof := p, core := { settings }, listeners := ({} : ListenerSet Target).add (.registry p)
      subscription := some (s.proof p).nextSubscription, standing := .held } := by
  show (((s.enlist p settings).2.addTarget s.runners.length (.registry p)).setStanding
    s.runners.length .held).runner s.runners.length = _
  rw [setStanding, addTarget, modifyRunner_modifyRunner,
    runner_modifyRunner_self _ (by rw [length_enlist]; exact Nat.lt_succ_self _), runner_enlist_self]
  rfl

theorem runner_admitted_of_ne (settings : Settings) {k : RunnerId} (hk : k ≠ s.runners.length) :
    (s.admitted p settings).runner k = s.runner k := by
  show (((s.enlist p settings).2.addTarget s.runners.length (.registry p)).setStanding
    s.runners.length .held).runner k = _
  rw [setStanding, addTarget, modifyRunner_modifyRunner, runner_modifyRunner_of_ne _ hk]
  rcases Nat.lt_or_gt_of_ne hk with hlt | hgt
  · exact runner_enlist_of_lt settings hlt
  · rw [runner_of_le (by rw [length_enlist]; exact hgt), runner_of_le (Nat.le_of_lt hgt)]

/-- **A new runner is registered** for a proof that has none. -/
theorem calm_admitted (h : Calm s) (hp : p < s.proofs.length) (he : s.registry.runnerFor? p = none)
    (settings : Settings) : Calm (s.admitted p settings) ∧
      (s.admitted p settings).registry.runnerFor? p = some s.runners.length := by
  have hproof : (s.admitted p settings).proof p = (s.proof p).addSubscriber (.runner s.runners.length) :=
    proof_modifyProof_self _ hp
  have hproofs : (s.admitted p settings).proofs.length = s.proofs.length := length_modifyProof _
  have hrlen := length_admitted (s := s) (p := p) settings
  have hself := runner_admitted (s := s) (p := p) settings
  refine h.admit he rfl hproofs (fun q hq => proof_modifyProof_of_ne _ hq) ?_
    (hrlen ▸ Nat.le_succ _) (fun k hk => runner_admitted_of_ne settings hk) (Nat.le_refl _) ?_
  · exact hproof ▸ h.plain p
  · refine ⟨hproofs ▸ hp, hrlen ▸ Nat.lt_succ_self _, ?_, ?_, ?_, ?_, ?_, ?_⟩
    · exact congrArg Hosted.proof hself
    · exact congrArg (·.core.closed) hself
    · exact (congrArg Hosted.core hself) ▸ Runner.consistent_start settings
    · exact congrArg (·.listeners.targets) hself
    · refine ⟨(s.proof p).nextSubscription, ?_, congrArg Hosted.subscription hself⟩
      refine (congrArg Watched.subscribers hproof).trans ?_
      unfold Watched.addSubscriber
      simp only [h.quiet p he]
      rfl
    · exact (congrArg Hosted.core hself) ▸ Runner.tends_start settings _

theorem facade_enlist (settings : Settings) (q : ProofId) :
    ((s.enlist p settings).2.proof q).facade = (s.proof q).facade := by
  rcases proof_enlist_cases (s := s) (p := p) (q := q) settings with e | ⟨_, e⟩ <;> rw [e]
  rfl

theorem proof_leaveActive (q : ProofId) : (s.leaveActive p).proof q = s.proof q := by
  unfold leaveActive
  split
  · rfl
  · split <;> rfl

/-- Unless the proof asks for it, nothing happens after a runner has subscribed. -/
theorem afterSubscribe_enlist (again : Again) (settings : Settings)
    (h : (s.proof p).facade.selectOnSubscribe = false) :
    afterSubscribe again p (s.enlist p settings).2 = (s.enlist p settings).2 := by
  unfold afterSubscribe
  rw [if_neg (by rw [facade_enlist, h]; exact Bool.false_ne_true)]

/-- Without a race, nothing else happens during a selection. -/
theorem select_eq (again : Again) (h : (s.proof p).facade.selectOnSubscribe = false ∨
    ∃ r, s.registry.runnerFor? p = some r) : select again s p = selectWith again id s p := by
  unfold select selectWith
  simp only
  split
  · rfl
  · rename_i he
    have hflag := h.resolve_right fun ⟨r, hr⟩ => by cases he.symm.trans hr
    rw [← proof_leaveActive (s := s) (p := p)] at hflag
    rw [afterSubscribe_enlist again s.registry.settings hflag]
    rfl

theorem settled_select (h : Settled s) (hp : p < s.proofs.length) : Settled (select again s p).2 := by
  have hleave := settled_leaveActive (p := p) h
  rw [select_eq again (Or.inl (by rw [(h.plain p).1]))]
  unfold selectWith
  simp only
  split
  · rename_i r he
    exact settled_activate hleave.toCalm (registry_leaveActive (s := s) ▸ he) _
  · rename_i he
    rw [← registry_leaveActive (s := s) (p := p)] at he
    have hlen : p < (s.leaveActive p).proofs.length := by
      unfold leaveActive
      split
      · exact hp
      · split <;> exact hp
    obtain ⟨hcalm, hfor⟩ := calm_admitted hleave.toCalm hlen he s.registry.settings
    rw [show ((s.leaveActive p).enlist p s.registry.settings).1 = (s.leaveActive p).runners.length from rfl,
      id, register_enlist again he]
    exact settled_activate hcalm hfor .fresh

/-! ## 2. New settings -/

/-- A registered runner starts over; what the active one has to hand out now comes later. -/
theorem calm_refreshSettings (h : Calm s) (he : s.registry.runnerFor? p = some r) (settings : Settings) :
    Calm (s.refreshSettings r settings) := by
  have hT := h.tended p r he
  have hput : Calm ((s.setTree p (s.proof p).tree).setCore r ((s.runner r).core.refresh settings).2) :=
    h.put he hT.alive (Runner.consistent_act hT.consistent (.refresh settings))
      (Runner.tends_refresh _ settings _)
  exact (hput.same (same_setTree_self.setCore _).symm).same (same_giveUp _)

/-- Registered runners start over one after the other. -/
theorem calm_refreshes (settings : Settings) {entries : List (ProofId × RunnerId)} (h : Calm s)
    (hsub : ∀ e ∈ entries, s.registry.runnerFor? e.1 = some e.2) :
    Calm (entries.foldl (fun s e => s.refreshSettings e.2 settings) s) := by
  induction entries generalizing s with
  | nil => exact h
  | cons e rest ih =>
      exact ih (calm_refreshSettings h (hsub e List.mem_cons_self) settings)
        fun e he => hsub e (List.mem_cons_of_mem _ he)

theorem Calm.setSettings (h : Calm s) (settings : Settings) :
    Calm { s with registry := { s.registry with settings } } :=
  ⟨h.observers, h.plain, h.quiet, h.idle, h.listed, fun q k hq =>
    (h.tended q k hq).frame rfl (Nat.le_refl _) rfl rfl⟩

/-- The active runner, if there is one, catches up. -/
theorem settled_catchUp (h : Calm s) :
    Settled (match s.registry.activeRunner? with
      | some r => (s.dispatchOpen r .fresh).2
      | none => s) := by
  split
  · rename_i r hact
    obtain ⟨p, hp, he⟩ := Option.bind_eq_some_iff.mp hact
    exact settled_dispatchOpen h he hp .fresh
  · rename_i hnone
    refine ⟨h, fun p r hp he => ?_⟩
    have hsome : s.registry.activeRunner? = some r := Option.bind_eq_some_iff.mpr ⟨p, hp, he⟩
    cases hnone.symm.trans hsome

theorem settled_refreshAll (h : Settled s) (settings : Settings) :
    Settled (refreshAll again s settings) := by
  have hcalm := calm_refreshes settings (h.toCalm.setSettings settings) h.listed
  exact settled_notifyObservers (settled_catchUp hcalm)

/-! ## 3. Answers -/

/-- The memory of a runner that is not registered changes nothing that matters here. -/
theorem settled_setCore_idle (h : Settled s) (hr : ∀ p, s.registry.runnerFor? p ≠ some r) (core : Runner) :
    Settled (s.setCore r core) := by
  have hne : ∀ {q k}, s.registry.runnerFor? q = some k → k ≠ r := fun hq e => hr _ (e ▸ hq)
  refine ⟨⟨h.observers, h.plain, h.quiet, fun k hk => ?_, h.listed, fun q k hq => ?_⟩,
    fun q k hact hq => ?_⟩
  · rcases runner_modifyRunner_cases (s := s) (r := r) (k := k) (fun h => { h with core })
      with e | ⟨rfl, _, e⟩
    · rw [Session.setCore, e]
      exact h.idle k hk
    · rw [Session.setCore, e]
      exact h.idle k hk
  · exact (h.tended q k hq).frame rfl (Nat.le_of_eq (length_modifyRunner _).symm)
      (runner_modifyRunner_of_ne _ (hne hq)) rfl
  · rw [show (s.setCore r core).runner k = s.runner k from runner_modifyRunner_of_ne _ (hne hq)]
    exact h.attends q k hact hq

/-- In a calm session the news of a runner's change concern nobody, as long as it is open. -/
theorem notifyRunner_calm (h : Calm s) : notifyRunner again s r = s := by
  by_cases hr : ∀ p, s.registry.runnerFor? p ≠ some r
  · unfold notifyRunner
    rw [h.idle r hr]
    rfl
  · simp only [ne_eq, not_forall, not_not] at hr
    obtain ⟨p, he⟩ := hr
    have hT := h.tended p r he
    exact notifyRunner_alive hT.targets he hT.alive h.observers

/-- Answers for a batch in flight, taken in by a runner that is registered or no longer is. -/
theorem settled_answered (h : Settled s) {batch : BatchId} {outcomes : List Outcome} {core : Runner}
    (hcore : (s.runner r).core.complete (s.proof (s.runner r).proof).tree.contains
      (s.proof (s.runner r).proof).tree.contains batch outcomes = some core) : Settled (s.setCore r core) := by
  by_cases hr : ∀ p, s.registry.runnerFor? p ≠ some r
  · exact settled_setCore_idle h hr core
  · simp only [ne_eq, not_forall, not_not] at hr
    obtain ⟨p, he⟩ := hr
    have hT := h.tended p r he
    have hc := Runner.consistent_act hT.consistent (.complete hcore)
    rw [hT.watches] at hcore
    obtain ⟨_, rfl⟩ := Runner.complete_cases.mp hcore
    exact settled_setCore h he hT.alive hc (Runner.tends_afterAnswers hT.tends) fun hact =>
      Runner.attends_afterAnswers (h.attends p r hact he) hT.tends

/-- **Answers change the runner they are for**, and nothing else. -/
theorem same_complete (again : Again) (h : Settled s) {batch : BatchId} {outcomes : List Outcome}
    {core : Runner} (hcore : (s.runner r).core.complete (s.proof (s.runner r).proof).tree.contains
      (s.proof (s.runner r).proof).tree.contains batch outcomes = some core) :
    Same (s.setCore r core) (complete again s r batch outcomes) := by
  obtain ⟨es, _, ⟨hb, _⟩ | ⟨core', hcore', e⟩⟩ := session_complete_cases again s r batch outcomes
  · cases (Runner.complete_eq_none.mpr hb).symm.trans hcore
  · cases hcore.symm.trans hcore'
    have hsame : Same (s.setCore r core)
        (((s.recordAll es).setCore r core).record (.completed r batch outcomes)) :=
      ((same_recordAll es).setCore core).trans (same_record _)
    rw [e]
    simp only
    rw [notifyRunner_calm ((settled_answered h hcore).same hsame).toCalm]
    split
    · exact hsame.trans same_wake
    · exact hsame

/-- **Answers arrive**, in time or not, for a runner that is registered or no longer is. -/
theorem settled_complete (h : Settled s) (batch : BatchId) (outcomes : List Outcome) :
    Settled (complete again s r batch outcomes) := by
  obtain ⟨es, _, ⟨_, e⟩ | ⟨core, hcore, _⟩⟩ := session_complete_cases again s r batch outcomes
  · rw [e]
    exact h.same (same_recordAll es)
  · exact (settled_answered h hcore).same (same_complete again h hcore)

/-! ## 4. Moves -/

theorem settled_proofCall (h : Settled s) {call : ProofCall} (hc : call.isMutation = true) :
    Settled (proofCall again s p call) := by
  cases call with
  | applyRule n rule new => exact settled_applyRule h n rule new
  | prune n => exact settled_prune h n
  | startAuto => exact settled_startAuto h
  | stopAuto => exact settled_stopAuto h
  | pause | resume | unsubscribe => cases hc

/-- **Every plain move keeps a session settled.** -/
theorem settled_move (h : Settled s) {m : Move} (hm : m.isPlain s.proofs.length = true) :
    Settled (move again s m) := by
  cases m with
  | select p => exact settled_select h (of_decide_eq_true hm)
  | applyResult n => exact settled_applyResult h n
  | refreshAll settings => exact settled_refreshAll h settings
  | proof p call => exact settled_proofCall h hm
  | runner r call =>
      cases call with
      | completed batch outcomes => exact settled_complete h batch outcomes
      | _ => cases hm
  | finish o outcomes =>
      show Settled (if .launch o ∈ s.tasks then _ else s)
      split
      · have hs : Same s { s with tasks := s.tasks.erase (.launch o) } :=
          ⟨rfl, fun _ => rfl, rfl, fun _ => rfl, rfl⟩
        exact settled_complete (h.same hs) o.launch.batch outcomes
      · exact h
  | shutdownAll | newRunner | listen | subscribe | dispose | present => cases hm

theorem settled_start (proofs : List (String × Tree)) (settings : Settings) :
    Settled (start proofs settings) where
  observers := rfl
  plain p := by
    unfold start proof
    simp only [List.getD_eq_getElem?_getD, List.getElem?_map]
    cases proofs[p]? <;> exact ⟨rfl, rfl, rfl⟩
  quiet p _ := (proof_start proofs settings p).1
  idle r _ := congrArg (·.listeners.targets) (runner_of_le (Nat.zero_le r))
  listed _ he := absurd he List.not_mem_nil
  tended _ _ he := by cases he
  attends _ _ hact := by cases hact

/-- Plain moves, one after the other; no proof comes or goes meanwhile. -/
theorem settled_moves (depth : Nat) (hw : Wired s) (h : Settled s) (moves : List Move)
    (hm : ∀ m ∈ moves, m.isPlain s.proofs.length = true) : Settled (run (perform depth) s moves) := by
  induction moves generalizing s with
  | nil => exact h
  | cons m rest ih =>
      have hr : Reaches (m.license s) s (move (perform depth) s m) :=
        reaches_move depth m hw
      refine ih (wired_reaches hw hr) (settled_move h (hm m List.mem_cons_self)) fun m hm' => ?_
      rw [(grows_reaches hr).proofs]
      exact hm m (List.mem_cons_of_mem _ hm')

/-- **Every run of plain moves is settled.** -/
theorem settled_run (depth : Nat) (proofs : List (String × Tree)) (settings : Settings)
    (moves : List Move) (hm : ∀ m ∈ moves, m.isPlain proofs.length = true) :
    Settled (run (perform depth) (start proofs settings) moves) := by
  refine settled_moves depth (wired_start proofs settings) (settled_start proofs settings) moves ?_
  rw [show (start proofs settings).proofs.length = proofs.length from List.length_map _]
  exact hm

end Session

end GoalWatch
