import GoalWatch.Proofs.Session.Registry.Desk

/-!
# The registry during calls

Whatever happens to proofs and runners, and whatever clients ask for while they are called, an orderly registry
goes on as one, and no runner is registered.

* `Session.Discreet` -- calls from inside keep the registry in order;
* `notify_ended`, `close_goes` -- the end of a runner, registered or not;
* `keeps_proofCall`, `keeps_complete`, `keeps_applyResult`, … -- one statement for each function that calls
  clients;
* `discreet_perform` -- calls nested to any depth are discreet.
-/

namespace GoalWatch.Session

open Desk

variable {s s' : Session} {p : ProofId} {r : RunnerId}

/-- **Calls from inside keep the registry in order.** -/
def Discreet (again : Again) : Prop := ∀ call s, s.desk.Orderly → Keeps s.desk (again call s).desk

/-- A step that leaves the desk alone. -/
theorem keeps_of_desk (h : s.desk.Orderly) (e : s'.desk = s.desk) : Keeps s.desk s'.desk := by
  rw [e]
  exact h.keeps

theorem keeps_foldl {α : Type} {f : Session → α → Session}
    (hf : ∀ x s, s.desk.Orderly → Keeps s.desk (f s x).desk) :
    ∀ (l : List α) {s : Session}, s.desk.Orderly → Keeps s.desk (l.foldl f s).desk
  | [], _, h => h.keeps
  | x :: rest, s, h => (hf x s h).trans (keeps_foldl hf rest (hf x s h).orderly)

theorem keeps_ite {c : Prop} [Decidable c] (h : s.desk.Orderly) (hk : Keeps s.desk s'.desk) :
    Keeps s.desk (if c then s' else s).desk := by
  split
  · exact hk
  · exact h.keeps

section Calls

variable {again : Again} (ha : Discreet again)

include ha

/-! ## 1. News of a change -/

theorem keeps_callListener (h : s.desk.Orderly) (l : ListenerId) :
    Keeps s.desk (callListener again s l).desk := by
  unfold callListener
  split
  · exact h.keeps
  · exact keeps_foldl (fun call s hs => ha call s hs) _ (s := s.record _) h

theorem keeps_notifyObservers (h : s.desk.Orderly) : Keeps s.desk (notifyObservers again s).desk :=
  keeps_foldl (fun l _ hs => keeps_callListener ha hs l) _ h

/-- Observers are told after a step that leaves the desk alone. -/
theorem keeps_then_observers (h : s.desk.Orderly) (e : s'.desk = s.desk) :
    Keeps s.desk (notifyObservers again s').desk := by
  rw [← e] at h ⊢
  exact keeps_notifyObservers ha h

theorem keeps_callTarget (h : s.desk.Orderly) (t : Target) : Keeps s.desk (callTarget again s t).desk := by
  cases t with
  | registry p =>
      show Keeps s.desk (notifyObservers again (s.retire p)).desk
      rw [retire_of_orderly h]
      exact keeps_notifyObservers ha h
  | client l => exact keeps_callListener ha h l

theorem keeps_targets (h : s.desk.Orderly) (targets : List Target) :
    Keeps s.desk (targets.foldl (callTarget again) s).desk :=
  keeps_foldl (fun t _ hs => keeps_callTarget ha hs t) _ h

/-! ## 2. The end of a runner -/

section Ended

omit ha

theorem close_closed (c : Runner) : c.close.2.closed = true := by
  unfold Runner.close
  split
  · assumption
  · rfl

theorem desk_ended : (s.ended r).desk = (s.modifyRunner r fun x =>
    { x with core := (s.runner r).core.close.2, subscription := none }).desk := desk_of_same same_ended rfl

theorem butFor_ended : ButFor r s.desk (s.ended r).desk := by
  rw [desk_ended]
  exact butFor_modifyRunner fun _ => close_closed _

theorem closed_ended (hr : r < s.runners.length) : (s.ended r).desk.closed r = true := by
  rw [desk_ended]
  show ((s.modifyRunner r _).runner r).core.closed = true
  rw [runner_modifyRunner_self _ hr]
  exact close_closed _

/-- The registry forgets a runner that has ended. -/
theorem desk_retire_ended (h : s.desk.Orderly) (he : (p, r) ∈ s.desk.entries) :
    ((s.ended r).retire p).desk = (s.ended r).desk.retired p := by
  have hfor : (s.ended r).registry.runnerFor? p = some r := (runnerFor?_eq_some h).mpr he
  have hclosed : ((s.ended r).runner r).core.closed = true := closed_ended (h.alive _ he).1
  unfold retire
  simp only [hfor, hclosed, if_true]
  rfl

/-- A registered runner that has ended tells the registry first. -/
theorem targets_ended (h : s.desk.Orderly) (he : (p, r) ∈ s.desk.entries) :
    ∃ rest, ((s.ended r).runner r).listeners.targets = .registry p :: rest := by
  obtain ⟨_, rest, hslots⟩ := h.hooked _ he
  have hhooks : ((s.ended r).runner r).listeners = (s.runner r).listeners := by
    rw [same_ended.runner, runner_modifyRunner_self _ (h.alive _ he).1]
  refine ⟨rest.map Prod.snd, ?_⟩
  unfold ListenerSet.targets
  rw [hhooks]
  exact congrArg (List.map Prod.snd) hslots

end Ended

/-- **All are told that a runner has ended.** Before any client can ask for something it is registered no
    longer: either it never was, or the registry was told first. -/
theorem notify_ended (h : s.desk.Orderly) : ∃ d, Keeps s.desk d ∧ Free d r ∧
    (r < s.runners.length → d.closed r = true) ∧ Keeps d (notifyRunner again (s.ended r) r).desk := by
  by_cases hf : Free s.desk r
  · have hk := h.butFor hf butFor_ended
    exact ⟨_, hk, hk.free hf, closed_ended, keeps_targets ha hk.orderly _⟩
  · simp only [Free, ne_eq, not_forall, not_not] at hf
    obtain ⟨⟨p, k⟩, he, rfl⟩ := hf
    have hclosed := closed_ended (h.alive _ he).1
    obtain ⟨hk, hfree⟩ := h.closing he butFor_ended hclosed
    obtain ⟨rest, htargets⟩ := targets_ended h he
    refine ⟨_, hk, hfree, fun _ => hclosed, ?_⟩
    rw [← desk_retire_ended h he] at hk ⊢
    have hobs := keeps_notifyObservers ha hk.orderly
    unfold notifyRunner
    rw [htargets]
    exact hobs.trans (keeps_targets ha hobs.orderly rest)

omit ha in
/-- What is left to do when all were told concerns nobody but the runner. -/
theorem close_open (again : Again) (hopen : (s.runner r).core.closed = false) : ∃ t : Session,
    t.desk = (notifyRunner again (s.ended r) r).desk ∧
    close again s r = t.modifyRunner r fun x => { x with listeners := x.listeners.clear } := by
  unfold close
  simp only [hopen, Bool.false_eq_true, if_false]
  cases (s.runner r).subscription with
  | none => exact ⟨_, rfl, rfl⟩
  | some id => exact ⟨(notifyRunner again (s.ended r) r).unsubscribe (s.runner r).proof id, rfl, rfl⟩

/-- **The end of a runner.** -/
theorem close_goes (h : s.desk.Orderly) : Keeps s.desk (close again s r).desk ∧
    (r < s.runners.length → (close again s r).desk.closed r = true) := by
  cases hopen : (s.runner r).core.closed with
  | true =>
      have hsame : close again s r = s := by
        unfold close
        simp only [hopen, if_true]
      rw [hsame]
      exact ⟨h.keeps, fun _ => hopen⟩
  | false =>
      obtain ⟨d, hk, hfree, hclosed, hk'⟩ := notify_ended (r := r) ha h
      obtain ⟨t, ht, e⟩ := close_open again hopen
      rw [← ht] at hk'
      have hlast : Keeps t.desk (close again s r).desk := by
        rw [e]
        exact hk'.orderly.butFor (hk'.free hfree) (butFor_modifyRunner id)
      have hend := hk'.trans hlast
      exact ⟨hk.trans hend, fun hr => hend.closed r (hclosed hr)⟩

theorem keeps_close (h : s.desk.Orderly) : Keeps s.desk (close again s r).desk := (close_goes ha h).1

theorem keeps_treeChanged (h : s.desk.Orderly) : Keeps s.desk (treeChanged again s r).2.desk := by
  unfold treeChanged
  split
  · exact h.keeps
  · rw [desk_dispatchOpen]
    exact keeps_targets ha h _

theorem keeps_complete (h : s.desk.Orderly) (batch : BatchId) (outcomes : List Outcome) :
    Keeps s.desk (complete again s r batch outcomes).desk := by
  obtain ⟨es, _, ⟨_, e⟩ | ⟨core, hcore, e⟩⟩ := session_complete_cases again s r batch outcomes
  · rw [e]
    exact h.keeps
  · have hclosed : core.closed = (s.runner r).core.closed := by
      obtain ⟨_, rfl⟩ := Runner.complete_cases.mp hcore
      rfl
    have hdesk : (((s.recordAll es).setCore r core).record (.completed r batch outcomes)).desk = s.desk :=
      desk_setCore (s := s.recordAll es) hclosed
    have hk := keeps_targets ha (hdesk ▸ h) (((s.recordAll es).setCore r core).runner r).listeners.targets
    rw [hdesk] at hk
    rw [e]
    simp only
    split <;> exact hk

/-! ## 3. Events -/

theorem keeps_handleEvent (h : s.desk.Orderly) (e : Event) : Keeps s.desk (handleEvent again s r e).desk := by
  cases e with
  | ruleApplied goals => exact keeps_of_desk h (desk_ruleApplied goals)
  | autoModeStarted => exact keeps_of_desk h desk_autoStarted
  | autoModeStopped => exact keeps_of_desk h desk_autoStopped
  | treeStructureChanged => exact keeps_treeChanged ha h
  | proofClosed => exact keeps_close ha h

theorem keeps_showTo (h : s.desk.Orderly) (e : Event) (x : Subscriber) :
    Keeps s.desk (showTo again p e s x).desk := by
  unfold showTo
  cases x.sink with
  | runner r => exact keeps_handleEvent ha (s := s.record _) h e
  | client k =>
      simp only
      split
      · exact h.keeps
      · exact keeps_foldl (fun call s hs => ha (.proof p call) s hs) _ (s := { s.record _ with sinks := _ }) h

theorem keeps_deliver (h : s.desk.Orderly) (e : Event) : Keeps s.desk (deliver again p s e).desk :=
  keeps_foldl (fun x _ hs => keeps_showTo ha hs e x) _ (s := s.record _) h

theorem keeps_emit (h : s.desk.Orderly) (e : Event) : Keeps s.desk (emit again s p e).desk := by
  unfold emit
  simp only
  split
  · exact h.keeps
  · exact keeps_deliver ha (s := s.record _) h e

theorem keeps_resumeEvents (h : s.desk.Orderly) : Keeps s.desk (resumeEvents again s p).desk := by
  unfold resumeEvents
  simp only
  split
  · exact h.keeps
  · exact keeps_foldl (fun e _ hs => keeps_deliver ha hs e) _ (s := s.modifyProof p _) h

/-! ## 4. Changes of a proof -/

theorem keeps_applyRule (h : s.desk.Orderly) (n : NodeId) (rule : String) (new : List Sequent) :
    Keeps s.desk (applyRule again s p n rule new).2.desk := by
  unfold applyRule
  split
  · exact h.keeps
  · rename_i goals tree _
    have hk := keeps_emit (p := p) ha (s := s.setTree p tree) h (.ruleApplied goals)
    simp only
    split
    · exact hk.trans (keeps_emit ha hk.orderly .proofClosed)
    · exact hk

theorem keeps_prune (h : s.desk.Orderly) (n : NodeId) : Keeps s.desk (prune again s p n).2.desk := by
  unfold prune
  split
  · exact h.keeps
  · rename_i tree _
    exact keeps_emit ha (s := s.setTree p tree) h .treeStructureChanged

theorem keeps_proofCall (h : s.desk.Orderly) (call : ProofCall) :
    Keeps s.desk (proofCall again s p call).desk := by
  cases call with
  | applyRule n rule new => exact keeps_applyRule ha h n rule new
  | prune n => exact keeps_prune ha h n
  | startAuto => exact keeps_emit ha h .autoModeStarted
  | stopAuto => exact keeps_emit ha h .autoModeStopped
  | pause => exact h.keeps
  | resume => exact keeps_resumeEvents ha h
  | unsubscribe id => exact h.keeps

/-! ## 5. Applying a result -/

theorem keeps_ensureGoal (h : s.desk.Orderly) (n : NodeId) :
    Keeps s.desk (ensureGoal again s p n).2.desk := by
  unfold ensureGoal
  simp only
  split
  · exact h.keeps
  · split
    · exact h.keeps
    · exact keeps_prune ha h n

theorem keeps_closeGoal (h : s.desk.Orderly) (n : NodeId) : Keeps s.desk (closeGoal again s p n).2.desk := by
  unfold closeGoal
  simp only
  split
  · exact h.keeps
  · exact h.keeps
  · exact keeps_applyRule ha h _ _ _

theorem keeps_applyResult (h : s.desk.Orderly) (n : NodeId) : Keeps s.desk (applyResult again s n).2.desk := by
  have hlook : Keeps s.desk (s.lookUp n).desk := keeps_of_desk h (desk_lookUp n)
  unfold applyResult
  simp only
  split
  · rename_i r _ _
    have hgoal := hlook.trans (keeps_ensureGoal (p := (s.runner r).proof) ha
      (s := (s.lookUp n).pauseEvents (s.runner r).proof) hlook.orderly n)
    cases he : ensureGoal again ((s.lookUp n).pauseEvents (s.runner r).proof) (s.runner r).proof n with
    | mk result t =>
        rw [he] at hgoal
        cases result with
        | error e => exact hgoal.trans (keeps_resumeEvents ha hgoal.orderly)
        | ok _ =>
            have hclose := hgoal.trans (keeps_closeGoal (p := (s.runner r).proof) ha hgoal.orderly n)
            have hresume := hclose.trans (keeps_resumeEvents (p := (s.runner r).proof) ha hclose.orderly)
            simp only
            split <;> exact hresume
  · exact hlook

theorem keeps_applyAny : ∀ (nodes : List NodeId) {s : Session}, s.desk.Orderly →
    Keeps s.desk (applyAny again s nodes).desk
  | [], _, h => h.keeps
  | n :: rest, s, h => by
      have hk := keeps_applyResult ha h n
      unfold applyAny
      split
      · rename_i t e
        rw [e] at hk
        exact hk
      · rename_i t _ e
        rw [e] at hk
        exact hk.trans (keeps_applyAny rest hk.orderly)

/-! ## 6. Calls from inside -/

omit ha in
/-- A client gives up its registration; the registry's own stays where it is. -/
theorem keeps_dispose (h : s.desk.Orderly) (l : ListenerId) : Keeps s.desk (s.dispose l).desk := by
  unfold dispose
  split
  · exact h.keeps
  · rename_i x hx
    -- every client listens where it did
    have hplace : ∀ y ∈ s.listeners.modify l fun x => { x with held := false },
        ∃ z ∈ s.listeners, y.home = z.home ∧ y.slot = z.slot := by
      intro y hy
      obtain ⟨i, hi⟩ := List.getElem?_of_mem hy
      rw [List.getElem?_modify] at hi
      obtain ⟨z, hz, rfl⟩ := Option.map_eq_some_iff.mp hi
      refine ⟨z, List.mem_of_getElem? hz, ?_⟩
      by_cases hl : l = i <;> simp [hl]
    have hhome : ∀ y ∈ s.listeners.modify l fun x => { x with held := false }, ∀ r,
        y.home = .runner r → r < s.desk.count := by
      intro y hy r hr
      obtain ⟨z, hz, hhome, _⟩ := hplace y hy
      exact h.home z hz r (hhome ▸ hr)
    have hapart : ∀ y ∈ s.listeners.modify l fun x => { x with held := false }, ∀ e ∈ s.desk.entries,
        y.home = .runner e.2 → y.slot ≠ 0 := by
      intro y hy e he hr
      obtain ⟨z, hz, hhome, hslot⟩ := hplace y hy
      rw [hslot]
      exact h.apart z hz e he (hhome ▸ hr)
    simp only
    split
    · split
      · rename_i r hr
        have hx : x ∈ s.listeners := List.mem_of_getElem? hx
        exact keeps_listeners h (f := fun ls => ls.remove x.slot)
          (fun p he hfirst => tellsFirst_remove hfirst (h.apart x hx _ he hr)) hhome hapart
      · exact h.rehook rfl rfl rfl rfl h.hooked hhome hapart
    · exact h.rehook rfl rfl rfl rfl h.hooked hhome hapart

theorem keeps_execute (h : s.desk.Orderly) (call : Call) : Keeps s.desk (execute again call s).desk := by
  cases call with
  | proof p c => exact keeps_proofCall ha h c
  | dispatch r => exact keeps_ite h (keeps_of_desk h (desk_dispatchOpen .fresh))
  | resume r => exact keeps_ite h (keeps_of_desk h (desk_dispatchOpen .retry))
  | stop r => exact keeps_ite h (keeps_of_desk h desk_stopAll)
  | shutdown r => exact keeps_ite h (keeps_close ha h)
  | applyFirst =>
      simp only [execute]
      split
      · exact keeps_applyAny ha _ h
      · exact h.keeps
  | dispose l => exact keeps_dispose h l

end Calls

/-- **Calls nested to any depth are discreet.** -/
theorem discreet_perform : ∀ depth, Discreet (perform depth)
  | 0 => fun _ _ h => h.keeps
  | depth + 1 => fun call _ h => keeps_execute (discreet_perform depth) h call

end GoalWatch.Session
