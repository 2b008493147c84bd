import GoalWatch.Proofs.Session.Registry.Calls

/-!
# Selections keep the registry in order

* `keeps_enlist`, `goes_admitted` -- a new runner, first a candidate, then registered;
* `Session.Prepares` -- a selection: the proof has a runner, then it becomes the active one;
* `selectWith_id` -- any selection during which nothing else happens.
-/

namespace GoalWatch

namespace Session

open Desk

variable {s s' : Session} {p : ProofId} {r : RunnerId} {again : Again}

/-! ## 1. New runners -/

theorem desk_enlist_closed (settings : Settings) (k : RunnerId) (hk : s.desk.closed k = true) :
    (s.enlist p settings).2.desk.closed k = true :=
  (congrArg (·.core.closed) (runner_enlist_of_lt settings (lt_of_closed hk))).trans hk

/-- A new runner that is not registered yet. -/
theorem keeps_enlist (h : s.desk.Orderly) (settings : Settings) :
    Keeps s.desk (s.enlist p settings).2.desk := by
  have hcount : s.desk.count ≤ (s.enlist p settings).2.desk.count := by
    show s.runners.length ≤ (s.enlist p settings).2.runners.length
    rw [length_enlist]
    exact Nat.le_succ _
  refine ⟨?_, hcount, desk_enlist_closed settings, fun _ he _ => he, fun _ => Or.inl⟩
  refine h.narrow (List.Sublist.refl _) h.active rfl hcount fun e he => ?_
  have hrun : (s.enlist p settings).2.runner e.2 = s.runner e.2 :=
    runner_enlist_of_lt settings (h.alive e he).1
  exact ⟨congrArg (·.core.closed) hrun, congrArg Hosted.listeners hrun⟩

/-- **A new runner is registered** for a proof that has none. -/
theorem goes_admitted (h : s.desk.Orderly) (hp : s.registry.runnerFor? p = none) (settings : Settings) :
    Goes (· = p) s.desk (s.admitted p settings).desk := by
  have hself := runner_admitted (s := s) (p := p) settings
  refine h.admit (ne_of_runnerFor?_none hp) rfl rfl rfl (Nat.le_refl _) ?_ (fun k hk => ?_) (fun k hk => ?_)
    (congrArg (·.core.closed) hself) (congrArg Hosted.listeners hself)
  · exact Nat.lt_of_lt_of_eq (Nat.lt_succ_self _) (length_admitted settings).symm
  · have hrun := runner_admitted_of_ne (p := p) settings (Nat.ne_of_lt (lt_of_closed hk))
    exact (congrArg (·.core.closed) hrun).trans hk
  · have hrun := runner_admitted_of_ne (p := p) settings (Nat.ne_of_lt hk)
    exact ⟨congrArg (·.core.closed) hrun, congrArg Hosted.listeners hrun⟩

theorem mem_admitted (settings : Settings) :
    (p, s.runners.length) ∈ (s.admitted p settings).desk.entries :=
  List.mem_append_right _ (List.mem_singleton.mpr rfl)

/-! ## 2. Selection -/

/-- A proof that has a runner becomes the active one. -/
theorem keeps_activate (ha : Discreet again) (h : s.desk.Orderly) (he : (p, r) ∈ s.desk.entries)
    (mode : Mode) : Keeps s.desk (activate again s p r mode).2.desk := by
  have hset : Keeps s.desk (desk { s with registry := { s.registry with active := some p } }) :=
    ⟨h.setActive he, Nat.le_refl _, fun _ => id, fun _ he _ => he, fun _ => Or.inl⟩
  exact hset.trans (keeps_then_observers ha hset.orderly (desk_dispatchOpen mode))

/-- **A selection makes sure that the proof has a runner, then makes the proof the active one.** -/
structure Prepares (again : Again) (p : ProofId) (s : Session) (result : RunnerId × Session) (r : RunnerId)
    (t : Session) : Prop where
  goes : Goes (· = p) s.desk t.desk
  entry : (p, r) ∈ t.desk.entries
  ends : ∃ mode, result = activate again t p r mode

/-- A proof without a runner is selected, and nothing else happens meanwhile. -/
theorem selectWith_new (again : Again) (hp : s.registry.runnerFor? p = none) :
    selectWith again id s p = activate again ((s.leaveActive p).admitted p s.registry.settings) p
      (s.leaveActive p).runners.length .fresh := by
  have hleave : (s.leaveActive p).registry.runnerFor? p = none := by
    rw [registry_leaveActive]
    exact hp
  unfold selectWith
  simp only [hp]
  rw [show ((s.leaveActive p).enlist p s.registry.settings).1 = (s.leaveActive p).runners.length from rfl,
    id, register_enlist again hleave]

/-- A selection during which nothing else happens. -/
theorem selectWith_id (again : Again) (h : s.desk.Orderly) :
    ∃ r t, Prepares again p s (selectWith again id s p) r t := by
  have hleave : Keeps s.desk (s.leaveActive p).desk := keeps_of_desk h desk_leaveActive
  cases hp : s.registry.runnerFor? p with
  | some r =>
      refine ⟨r, s.leaveActive p, hleave.weaken, ?_, if s.registry.active = some p then .fresh else .retry, ?_⟩
      · rw [desk_leaveActive]
        exact mem_of_runnerFor? hp
      · unfold selectWith
        simp only [hp]
  | none =>
      have hgoes := goes_admitted hleave.orderly (by rw [registry_leaveActive]; exact hp) s.registry.settings
      exact ⟨_, _, hleave.weaken.trans hgoes, mem_admitted _, .fresh, selectWith_new again hp⟩

theorem Prepares.keeps (ha : Discreet again) {result : RunnerId × Session} {t : Session}
    (h : Prepares again p s result r t) : result.1 = r ∧ Keeps t.desk result.2.desk := by
  obtain ⟨mode, rfl⟩ := h.ends
  exact ⟨rfl, keeps_activate ha h.goes.orderly h.entry mode⟩

/-- What a subscription sets off, if its proof asks for it: a selection of the proof. -/
theorem afterSubscribe_eq (again : Again) (hf : (s.proof p).facade.selectOnSubscribe = true) :
    afterSubscribe again p s = (selectWith again id (s.modifyProof p fun w =>
      { w with facade := { w.facade with selectOnSubscribe := false } }) p).2 := by
  unfold afterSubscribe
  rw [if_pos hf]

end Session

end GoalWatch
