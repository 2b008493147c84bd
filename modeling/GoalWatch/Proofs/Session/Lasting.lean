import GoalWatch.Proofs.Runner.Ended
import GoalWatch.Proofs.Session.Untold

/-!
# What lasts through calls of clients

Clients are called in two kinds of rounds: those who listen are told of a change, and those who are subscribed are
shown an event. A property of sessions lasts through all of it if it outlasts every change of which nobody is told
and the beginning of every such call; what is known of that beginning is part of what is asked here. The property
may speak of how often each proof is paused at most, so that a pause and its end may cancel each other.

* `Caps` -- how often each proof is paused at most;
* `Session.Lasting` -- what is asked of a property;
* `Session.Carried` -- calls from inside keep it;
* `lasting_notifyRunner`, `lasting_deliver`, `lasting_applyResult`, … -- one statement for each function;
* **`carried_perform`** -- calls nested to any depth keep it;
* **`lasting_move`**, **`lasting_deal`** -- and so does every move; what comes of deals.
-/

namespace GoalWatch

/-- How often each proof is paused at most. -/
abbrev Caps := ProofId → Nat

namespace Caps

/-- One pause more of a proof. -/
def raise (N : Caps) (p : ProofId) : Caps := fun q => if q = p then N q + 1 else N q

/-- No pause of a proof. -/
def clear (N : Caps) (p : ProofId) : Caps := fun q => if q = p then 0 else N q

variable (N : Caps) (p q : ProofId)

theorem le_raise : N q ≤ N.raise p q := by
  unfold raise
  split <;> omega

theorem clear_le : N.clear p q ≤ N q := by
  unfold clear
  split <;> omega

theorem raise_self : N.raise p p = N p + 1 := if_pos rfl

theorem clear_self : N.clear p p = 0 := if_pos rfl

variable {p q} in
theorem raise_of_ne (h : q ≠ p) : N.raise p q = N q := if_neg h

variable {p q} in
theorem clear_of_ne (h : q ≠ p) : N.clear p q = N q := if_neg h

theorem clear_raise : (N.raise p).clear p = N.clear p := by
  funext q
  unfold clear raise
  split <;> rfl

end Caps

namespace Session

/-- A proof tells of events that it held back, one after the other, from where it is no longer paused. -/
def flush (again : Again) (u : Session) (p : ProofId) (events : List Event) : Session :=
  events.foldl (deliver again p) (u.modifyProof p fun w => { w with paused := 0, held := [] })

/-- **The property outlasts all that happens between calls of clients, and the beginning of each call.** Clients
    ask for what is in `ask` only. -/
structure Lasting (ask : Call → Prop) (I : Caps → Session → Prop) : Prop where
  aside : ∀ {N s s'}, I N s → Unnoticed s s' → I N s'
  loosen : ∀ {N M : Caps} {s}, I N s → (∀ p, N p ≤ M p) → I M s
  pause : ∀ {N s p}, ask (.proof p .pause) → I N s → I N (s.pauseEvents p)
  raise : ∀ {N s} p, I N s → I (N.raise p) (s.pauseEvents p)
  lower : ∀ {N s p}, I (N.raise p) s → 1 < (s.proof p).paused →
    I N (s.modifyProof p fun w => { w with paused := w.paused - 1 })
  clear : ∀ {N s} p, I N s → I (N.clear p) (s.modifyProof p fun w => { w with paused := 0, held := [] })
  listener : ∀ {N s}, I N s → ∀ x ∈ s.listeners, ∀ call ∈ x.calls, ask call
  sink : ∀ {N s}, I N s → ∀ c ∈ s.sinks, ∀ i e, ∀ call ∈ c.react i e, ∀ p, ask (.proof p call)
  /-- An observer of the registry is told of a change. -/
  observer : ∀ {N u s l} v, I N u → l ∈ u.registry.observers.targets → I N s → I N (s.record (.notified l v))
  /-- A runner tells its listeners of a change, one after the other; it had not ended right before. -/
  told : ∀ {N u t k l} depth done todo v, I N u → ¬ (u.runner k).core.Ended → Untold u t →
    (t.runner k).listeners.targets = done ++ .client l :: todo → I N (done.foldl (callTarget (perform depth)) t) →
    I N ((done.foldl (callTarget (perform depth)) t).record (.notified l v))
  /-- A proof that is not paused tells of something new. -/
  fresh : ∀ {N s p} e ids, I N s → (s.proof p).paused = 0 → I N (s.record (.delivered p e 0 ids))
  /-- A proof goes on telling of what it held back. -/
  flush : ∀ {N p} depth u done e rest ids, N p = 0 → (u.proof p).paused ≤ 1 →
    (u.proof p).held = done ++ e :: rest → I N (flush (perform depth) u p done) →
    I N ((flush (perform depth) u p done).record
      (.delivered p e ((flush (perform depth) u p done).proof p).paused ids))

/-- **Calls from inside keep the property**, if clients may ask for them. -/
def Carried (ask : Call → Prop) (I : Caps → Session → Prop) (again : Again) : Prop :=
  ∀ N call s, ask call → I N s → I N (again call s)

variable {ask : Call → Prop} {I : Caps → Session → Prop} {N : Caps} {s u : Session} {p : ProofId} {r : RunnerId}

theorem lasting_foldl {α : Type} {f : Session → α → Session} {P : Session → Prop} {l : List α}
    (hf : ∀ x ∈ l, ∀ t, P t → P (f t x)) (h : P s) : P (l.foldl f s) := by
  induction l generalizing s with
  | nil => exact h
  | cons x rest ih => exact ih (fun y hy => hf y (List.mem_cons_of_mem _ hy)) (hf x List.mem_cons_self s h)

variable (hI : Lasting ask I)

include hI

/-! ## 1. News of a change -/

section Calls

variable {depth : Nat} (ha : Carried ask I (perform depth))

include ha

/-- A listener has been told of a change, and asks for what it may. -/
theorem lasting_callListener {l : ListenerId} (htold : ∀ v, I N s → I N (s.record (.notified l v))) (h : I N s) :
    I N (callListener (perform depth) s l) := by
  unfold callListener
  split
  · exact h
  · rename_i x hx
    refine lasting_foldl (fun call hcall t ht => ha N call t ?_ ht) (htold _ h)
    exact hI.listener h x (List.mem_of_getElem? hx) call hcall

theorem lasting_notifyObservers (h : I N s) : I N (notifyObservers (perform depth) s) :=
  lasting_foldl (fun _ hl _ ht => lasting_callListener hI ha (fun v => hI.observer v h hl) ht) h

/-- A runner that tells of a change has come to one of its listeners. -/
theorem lasting_callTarget {x : Target} {done todo : List Target} (hu : I N u) (hopen : ¬ (u.runner r).core.Ended)
    (hs : Untold u s) (hx : (s.runner r).listeners.targets = done ++ x :: todo)
    (h : I N (done.foldl (callTarget (perform depth)) s)) :
    I N (callTarget (perform depth) (done.foldl (callTarget (perform depth)) s) x) := by
  cases x with
  | registry p => exact lasting_notifyObservers hI ha (hI.aside h unnoticed_retire)
  | client l => exact lasting_callListener hI ha (fun v => hI.told depth done todo v hu hopen hs hx) h

/-- **A runner tells of a change** those who listen to it, unless it had ended before. The induction is on those
    that it tells next. -/
theorem lasting_round (hu : I N u) (hopen : ¬ (u.runner r).core.Ended) (hs : Untold u s) :
    ∀ next done todo, (s.runner r).listeners.targets = done ++ (next ++ todo) →
      I N (done.foldl (callTarget (perform depth)) s) →
      I N ((done ++ next).foldl (callTarget (perform depth)) s)
  | [], done, _, _, h => by
      rw [List.append_nil]
      exact h
  | x :: next, done, todo, hx, h => by
      have h1 := lasting_callTarget hI ha hu hopen hs hx h
      rw [List.append_cons]
      refine lasting_round hu hopen hs next (done ++ [x]) todo (by rw [hx, List.append_assoc]; rfl) ?_
      rw [List.foldl_append]
      exact h1

theorem lasting_notifyRunner (hu : I N u) (hopen : ¬ (u.runner r).core.Ended) (hs : Unnoticed u s) :
    I N (notifyRunner (perform depth) s r) :=
  lasting_round hI ha hu hopen hs.toUntold _ [] [] (List.append_nil _).symm (hI.aside hu hs)

theorem lasting_close (h : I N s) : I N (close (perform depth) s r) := by
  cases hopen : (s.runner r).core.closed with
  | true =>
      unfold close
      simp only [hopen, if_true]
      exact h
  | false =>
      rw [close_eq _ hopen]
      exact hI.aside (lasting_notifyRunner hI ha h (Runner.not_ended hopen) unnoticed_ended) (unnoticed_parted _)

theorem lasting_treeChanged (h : I N s) : I N (treeChanged (perform depth) s r).2 := by
  unfold treeChanged
  split
  · exact h
  · rename_i hopen
    exact hI.aside (lasting_notifyRunner hI ha h (fun hended => hopen hended.closed) (.refl s))
      (unnoticed_dispatchOpen .fresh)

theorem lasting_complete (h : I N s) (batch : BatchId) (outcomes : List Outcome) :
    I N (complete (perform depth) s r batch outcomes) := by
  obtain ⟨es, hes, hc⟩ := session_complete_cases (perform depth) s r batch outcomes
  have h0 : I N (s.recordAll es) := hI.aside h (unnoticed_probed hes)
  rcases hc with ⟨_, e⟩ | ⟨core, hcore, e⟩ <;> rw [e]
  · exact h0
  · -- a runner with a batch in flight has not ended
    have hopen : ¬ ((s.recordAll es).runner r).core.Ended := fun hended => by
      have hb := (Runner.complete_cases.mp hcore).1
      rw [show (s.runner r).core.inFlight = [] from hended.inFlight] at hb
      exact absurd hb List.not_mem_nil
    have h1 := lasting_notifyRunner hI ha h0 hopen (unnoticed_answered (s := s.recordAll es) hcore)
    simp only
    split
    · exact hI.aside h1 unnoticed_wake
    · exact h1

/-! ## 2. Events -/

theorem lasting_handleEvent (h : I N s) (e : Event) : I N (handleEvent (perform depth) s r e) := by
  cases e with
  | ruleApplied goals => exact hI.aside h (unnoticed_takeLaunch .fresh goals)
  | autoModeStarted => exact hI.aside h unnoticed_autoStarted
  | autoModeStopped => exact hI.aside h unnoticed_autoStopped
  | treeStructureChanged => exact lasting_treeChanged hI ha h
  | proofClosed => exact lasting_close hI ha h

theorem lasting_showTo (h : I N s) (e : Event) (x : Subscriber) : I N (showTo (perform depth) p e s x) := by
  have h0 : I N (s.record (.shown p x.id e)) := hI.aside h (unnoticed_record rfl fun _ => rfl)
  unfold showTo
  cases x.sink with
  | runner r => exact lasting_handleEvent hI ha h0 e
  | client k =>
      simp only
      split
      · exact h0
      · rename_i c hc
        have h1 : I N { s.record (.shown p x.id e) with
            sinks := s.sinks.modify k fun c => { c with shown := c.shown + 1 } } :=
          hI.aside h0 (unnoticed_sinks (react_modify _ k fun _ => rfl))
        refine lasting_foldl (fun call hcall t ht => ha N _ t ?_ ht) h1
        exact hI.sink h0 c (List.mem_of_getElem? hc) _ _ call hcall p

/-- A proof has started telling of an event. -/
theorem lasting_deliver {e : Event}
    (h : I N (s.record (.delivered p e (s.proof p).paused ((s.proof p).subscribers.map Subscriber.id)))) :
    I N (deliver (perform depth) p s e) :=
  lasting_foldl (fun x _ _ ht => lasting_showTo hI ha ht e x) h

theorem lasting_emit (h : I N s) (e : Event) : I N (emit (perform depth) s p e) := by
  have h0 : I N (s.record (.emitted p e)) := hI.aside h (unnoticed_record rfl fun _ => rfl)
  unfold emit
  simp only
  split
  · rename_i hpaused
    exact hI.aside h0 (unnoticed_modifyProof (fun _ => Nat.le_refl _) fun _ h => absurd h (Nat.ne_of_gt hpaused))
  · rename_i hpaused
    have hzero : ((s.record (.emitted p e)).proof p).paused = 0 := Nat.eq_zero_of_not_pos hpaused
    refine lasting_deliver hI ha ?_
    rw [hzero]
    exact hI.fresh e _ h0 hzero

/-- **A proof tells of what it held back.** The induction is on the events told already; what is known of each is
    where in this row it stands. -/
theorem lasting_flush (hp : N p = 0) (hpaused : (u.proof p).paused ≤ 1) :
    ∀ rest done, (u.proof p).held = done ++ rest → I N (flush (perform depth) u p done) →
      I N (flush (perform depth) u p (u.proof p).held)
  | [], done, hheld, hd => by
      rw [hheld, List.append_nil]
      exact hd
  | e :: rest, done, hheld, hd => by
      refine lasting_flush hp hpaused rest (done ++ [e]) (by rw [hheld, List.append_assoc]; rfl) ?_
      unfold flush
      rw [List.foldl_append]
      exact lasting_deliver hI ha (hI.flush depth u done e rest _ hp hpaused hheld hd)

/-- **The end of a pause.** -/
theorem lasting_resumeEvents (h : I (N.raise p) s) : I N (resumeEvents (perform depth) s p) := by
  unfold resumeEvents
  simp only
  split
  · rename_i hpaused
    exact hI.lower h hpaused
  · rename_i hpaused
    have h0 := hI.clear p h
    rw [Caps.clear_raise] at h0
    exact hI.loosen (lasting_flush hI ha (N.clear_self p) (Nat.le_of_not_lt hpaused) _ [] rfl h0) (N.clear_le p)

/-! ## 3. Changes of a proof -/

theorem lasting_applyRule (h : I N s) (n : NodeId) (rule : String) (new : List Sequent) :
    I N (applyRule (perform depth) s p n rule new).2 := by
  unfold applyRule
  split
  · exact h
  · rename_i goals tree _
    have h0 : I N (s.setTree p tree) := hI.aside h (unnoticed_setTree tree)
    have h1 := lasting_emit hI ha (p := p) h0 (.ruleApplied goals)
    simp only
    split
    · exact lasting_emit hI ha h1 _
    · exact h1

theorem lasting_prune (h : I N s) (n : NodeId) : I N (prune (perform depth) s p n).2 := by
  unfold prune
  split
  · exact h
  · exact lasting_emit hI ha (hI.aside h (unnoticed_setTree _)) _

theorem lasting_proofCall {call : ProofCall} (hc : call = .pause → ask (.proof p .pause)) (h : I N s) :
    I N (proofCall (perform depth) s p call) := by
  cases call with
  | applyRule n rule new => exact lasting_applyRule hI ha h n rule new
  | prune n => exact lasting_prune hI ha h n
  | startAuto | stopAuto => exact lasting_emit hI ha h _
  | pause => exact hI.pause (hc rfl) h
  | resume => exact lasting_resumeEvents hI ha (hI.loosen h (N.le_raise p))
  | unsubscribe id => exact hI.aside h (unnoticed_unsubscribe id)

/-- **Applying a result**: the pause is over when it is done. -/
theorem lasting_applyResult (h : I N s) (n : NodeId) : I N (applyResult (perform depth) s n).2 :=
  applyResult_within (P := fun _ => True) (J := fun p => I (N.raise p)) (fun _ _ => trivial)
    (fun p _ _ ht => hI.raise p ht) (fun _ _ _ ht => lasting_prune hI ha ht n)
    (fun _ _ _ _ _ ht => lasting_applyRule hI ha ht _ _ _) (fun _ _ _ ht => lasting_resumeEvents hI ha ht)
    (hI.aside h (unnoticed_lookUp n))

theorem lasting_applyAny : ∀ (nodes : List NodeId) {s : Session}, I N s → I N (applyAny (perform depth) s nodes)
  | [], _, h => h
  | n :: rest, s, h => by
      have h0 := lasting_applyResult hI ha h n
      unfold applyAny
      split
      · rename_i e
        rw [e] at h0
        exact h0
      · rename_i e
        rw [e] at h0
        exact lasting_applyAny rest h0

theorem lasting_execute {call : Call} (hc : ask call) (h : I N s) : I N (execute (perform depth) call s) := by
  cases call with
  | proof p c => exact lasting_proofCall hI ha (fun e => e ▸ hc) h
  | dispatch r | resume r =>
      simp only [execute]
      split
      · exact hI.aside h (unnoticed_dispatchOpen _)
      · exact h
  | stop r =>
      simp only [execute]
      split
      · exact hI.aside h unnoticed_stopAll
      · exact h
  | shutdown r =>
      simp only [execute]
      split
      · exact lasting_close hI ha h
      · exact h
  | applyFirst =>
      simp only [execute]
      split
      · exact lasting_applyAny hI ha _ h
      · exact h
  | dispose l => exact hI.aside h (unnoticed_dispose l)

end Calls

/-- **Calls nested to any depth keep the property.** -/
theorem carried_perform : ∀ depth, Carried ask I (perform depth)
  | 0 => fun _ _ _ _ h => h
  | depth + 1 => fun _ _ _ hc h => lasting_execute hI (carried_perform depth) hc h

/-! ## 4. Selecting proofs -/

variable (depth : Nat)

theorem lasting_register (h : I N s) : I N (register (perform depth) s p r).2 := by
  have h0 : I N (s.addTarget r (.registry p)) := hI.aside h (unnoticed_addTarget p)
  unfold register
  simp only
  split
  · exact lasting_close hI (carried_perform hI depth) h0
  · exact hI.aside (hI.aside h0 (unnoticed_setStanding .held)) (unnoticed_desk rfl)

theorem lasting_activate (h : I N s) (mode : Mode) : I N (activate (perform depth) s p r mode).2 := by
  have h0 : I N { s with registry := { s.registry with active := some p } } := hI.aside h (unnoticed_desk rfl)
  exact lasting_notifyObservers hI (carried_perform hI depth) (hI.aside h0 (unnoticed_dispatchOpen mode))

theorem lasting_selectWith {during : Session → Session} (hd : ∀ t, I N t → I N (during t)) (h : I N s) :
    I N (selectWith (perform depth) during s p).2 := by
  have h0 : I N (s.leaveActive p) := hI.aside h unnoticed_leaveActive
  unfold selectWith
  simp only
  split
  · exact lasting_activate hI depth h0 _
  · have h1 := hd _ (hI.aside h0 (unnoticed_enlist (p := p) s.registry.settings))
    exact lasting_activate hI depth (lasting_register hI depth h1) .fresh

theorem lasting_afterSubscribe (h : I N s) : I N (afterSubscribe (perform depth) p s) := by
  unfold afterSubscribe
  split
  · exact lasting_selectWith hI depth (fun _ ht => ht) (hI.aside h (unnoticed_modifyProof (fun _ => Nat.le_refl _) id))
  · exact h

theorem lasting_newRunner (h : I N s) (settings : Settings) : I N (newRunner (perform depth) s p settings).2 := by
  have h0 := lasting_afterSubscribe hI depth (p := p) (hI.aside h (unnoticed_enlist (p := p) settings))
  exact hI.aside h0 (unnoticed_setStanding .held)

theorem lasting_refreshAll (h : I N s) (settings : Settings) : I N (refreshAll (perform depth) s settings) := by
  have h0 : I N { s with registry := { s.registry with settings } } := hI.aside h (unnoticed_desk rfl)
  have h1 : I N (s.registry.entries.foldl (fun s e => s.refreshSettings e.2 settings)
      { s with registry := { s.registry with settings } }) :=
    lasting_foldl (fun _ _ _ ht => hI.aside ht (unnoticed_refreshSettings settings)) h0
  unfold refreshAll
  simp only
  refine lasting_notifyObservers hI (carried_perform hI depth) ?_
  split
  · exact hI.aside h1 (unnoticed_dispatchOpen .fresh)
  · exact h1

theorem lasting_shutdownAll (h : I N s) : I N (shutdownAll (perform depth) s) := by
  have h0 : I N { s with registry := { s.registry with active := none, entries := [] } } :=
    hI.aside h (unnoticed_desk rfl)
  exact lasting_notifyObservers hI (carried_perform hI depth)
    (lasting_foldl (fun _ _ _ ht => lasting_close hI (carried_perform hI depth) ht) h0)

/-! ## 5. Moves -/

theorem lasting_runnerCall (h : I N s) (call : RunnerCall) : I N (runnerCall (perform depth) s r call).2 := by
  have ha := carried_perform hI depth
  cases call with
  | dispatch | resume => exact hI.aside h (unnoticed_dispatchOpen _)
  | ruleApplied goals => exact hI.aside h (unnoticed_takeLaunch .fresh goals)
  | autoStarted => exact hI.aside h unnoticed_autoStarted
  | autoStopped => exact hI.aside h unnoticed_autoStopped
  | treeChanged => exact lasting_treeChanged hI ha h
  | close => exact lasting_close hI ha h
  | completed batch outcomes => exact lasting_complete hI ha h batch outcomes
  | refresh settings => exact hI.aside h (unnoticed_refreshSettings settings)
  | setSolvers solvers => exact hI.aside h (unnoticed_setSolvers solvers)
  | stopAll => exact hI.aside h unnoticed_stopAll

/-- **A move keeps the property**, unless a client comes in by it, or a pause that nobody may ask for. -/
theorem lasting_move {m : Move} (hl : ∀ home calls, m ≠ .listen home calls)
    (hs : ∀ p react, m ≠ .subscribe p react) (hp : ∀ p, m = .proof p .pause → ask (.proof p .pause))
    (h : I N s) : I N (move (perform depth) s m) := by
  have ha := carried_perform hI depth
  cases m with
  | select p => exact lasting_selectWith hI depth (fun _ ht => lasting_afterSubscribe hI depth ht) h
  | applyResult n => exact lasting_applyResult hI ha h n
  | refreshAll settings => exact lasting_refreshAll hI depth h settings
  | shutdownAll => exact lasting_shutdownAll hI depth h
  | proof p call => exact lasting_proofCall hI ha (fun e => hp p (by rw [e])) h
  | newRunner p settings => exact lasting_newRunner hI depth h settings
  | runner r call => exact lasting_runnerCall hI depth h call
  | finish o outcomes =>
      simp only [move]
      split
      · exact lasting_complete hI ha (hI.aside h (unnoticed_tasks _ s.waits)) _ outcomes
      · exact h
  | listen home calls => exact absurd rfl (hl home calls)
  | subscribe p react => exact absurd rfl (hs p react)
  | dispose l => exact hI.aside h (unnoticed_dispose l)
  | present p tree facade => exact hI.aside h (unnoticed_modifyProof (fun _ => Nat.le_refl _) id)

/-- **What comes of a deal**, if it comes of all that the property holds of, of runners that are given up, and of the
    deals by which a client or a pause comes in. -/
theorem lasting_deal {J : Session → Prop} {d : Deal} (hJ : ∀ t, I N t → J t)
    (hforget : ∀ t r, I N t → J (t.forget r))
    (hlisten : ∀ home calls, d = .move (.listen home calls) → J (s.addListener home calls))
    (hsubscribe : ∀ p react, d = .move (.subscribe p react) → J (s.subscribe p react).2)
    (hpause : ∀ p, d = .move (.proof p .pause) → J (s.pauseEvents p)) (h : I N s) :
    J (deal (perform depth) s d) := by
  cases d with
  | move m =>
      by_cases hl : ∃ home calls, m = .listen home calls
      · obtain ⟨home, calls, rfl⟩ := hl
        exact hlisten home calls rfl
      by_cases hs : ∃ p react, m = .subscribe p react
      · obtain ⟨p, react, rfl⟩ := hs
        exact hsubscribe p react rfl
      by_cases hp : ∃ p, m = .proof p .pause
      · obtain ⟨p, rfl⟩ := hp
        exact hpause p rfl
      · exact hJ _ (lasting_move hI depth (fun home calls e => hl ⟨home, calls, e⟩)
          (fun p react e => hs ⟨p, react, e⟩) (fun p e => absurd ⟨p, e⟩ hp) h)
  | drop r =>
      rcases drop_cases (perform depth) s r with e | ⟨_, e⟩ | e <;> rw [e]
      · exact hJ _ h
      · exact hJ _ (hI.aside h (unnoticed_setStanding .lingering))
      · exact hforget s r h
  | wait r => exact hJ _ (hI.aside h (unnoticed_tasks _ _))
  | endWait w =>
      obtain ⟨tasks, waits, e | e⟩ := endWait_cases (perform depth) s w <;> rw [e]
      · exact hJ _ (hI.aside h (unnoticed_tasks tasks waits))
      · exact hforget _ w.runner (hI.aside h (unnoticed_tasks tasks waits))

end Session

end GoalWatch
