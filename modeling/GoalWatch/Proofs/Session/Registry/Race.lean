import GoalWatch.Proofs.Runner.Station
import GoalWatch.Proofs.Session.Registry.Selection

/-!
# Two selections at once

While a new runner subscribes, its proof may be selected once more from inside. Then the runner from inside is
registered first, and the other one ends. Observers are told of both selections; as long as they ask for nothing
but to apply results and to give up registrations, no other runner ends meanwhile.

* `Call.isMeek`, `Session.Meek` -- what observers may ask for;
* `Session.Still` -- runners and registry stand still, `still_notifyObservers` -- when meek observers are told
  of something and there is no result to apply;
* `register_loses` -- a candidate ends and the registered runner stays;
* `select_race`, `select_prepares` -- two selections at once, and any selection.
-/

namespace GoalWatch

/-- The client asks to apply a result, or to give up a registration. -/
def Call.isMeek : Call → Bool
  | .applyFirst | .dispose _ => true
  | _ => false

namespace Session

open Desk

variable {s s' s'' : Session} {p : ProofId} {r : RunnerId} {again : Again}

/-- What a listener asks for when it is told of a change. -/
def asks (s : Session) (l : ListenerId) : List Call := (s.listeners[l]?.map Listener.calls).getD []

/-- Observers ask for meek calls only. -/
def isMeek (s : Session) : Bool :=
  s.registry.observers.targets.all fun l => (s.asks l).all Call.isMeek

/-- The active runner has proved nothing, so that there is no result to apply. -/
def Idle (s : Session) : Prop := ∀ r, s.registry.activeRunner? = some r → (s.runner r).core.solved = []

/-- Meek calls from inside do what they say: nothing is applied where there is no result, and a registration is
    given up at most. -/
structure Literal (again : Again) : Prop where
  applyFirst : ∀ s, Idle s → again .applyFirst s = s
  dispose : ∀ l s, again (.dispose l) s = s ∨ again (.dispose l) s = s.dispose l

/-! ## 1. Runners and registry stand still -/

/-- **Runners and registry stand still**: none is registered, ends or proves anything, and no one starts to
    listen. -/
structure Still (s s' : Session) : Prop where
  entries : s'.registry.entries = s.registry.entries
  active : s'.registry.active = s.registry.active
  closed : ∀ k, (s'.runner k).core.closed = (s.runner k).core.closed
  solved : ∀ k, (s'.runner k).core.solved = (s.runner k).core.solved
  bare : ∀ k, (s.runner k).listeners.slots = [] → (s'.runner k).listeners.slots = []
  asks : ∀ l, s'.asks l = s.asks l
  observers : ∀ l ∈ s'.registry.observers.targets, l ∈ s.registry.observers.targets

theorem Still.refl (s : Session) : Still s s :=
  ⟨rfl, rfl, fun _ => rfl, fun _ => rfl, fun _ => id, fun _ => rfl, fun _ => id⟩

theorem Still.trans (h : Still s s') (h' : Still s' s'') : Still s s'' where
  entries := h'.entries.trans h.entries
  active := h'.active.trans h.active
  closed k := (h'.closed k).trans (h.closed k)
  solved k := (h'.solved k).trans (h.solved k)
  bare k hk := h'.bare k (h.bare k hk)
  asks l := (h'.asks l).trans (h.asks l)
  observers l hl := h.observers l (h'.observers l hl)

theorem Still.activeRunner? (h : Still s s') : s'.registry.activeRunner? = s.registry.activeRunner? := by
  unfold Registry.activeRunner? Registry.runnerFor?
  rw [h.entries, h.active]

theorem Still.idle (hs : Still s s') (h : Idle s) : Idle s' := by
  intro r hr
  rw [hs.solved]
  exact h r (hs.activeRunner? ▸ hr)

theorem still_record (e : Entry) : Still s (s.record e) :=
  ⟨rfl, rfl, fun _ => rfl, fun _ => rfl, fun _ => id, fun _ => rfl, fun _ => id⟩

theorem still_dispatchOpen (mode : Mode) : Still s (s.dispatchOpen r mode).2 := by
  have hdesk := desk_dispatchOpen (s := s) (r := r) mode
  have hsame := same_dispatchOpen (s := s) (r := r) mode
  refine ⟨congrArg Desk.entries hdesk, congrArg Desk.active hdesk, congrFun (congrArg Desk.closed hdesk),
    fun k => ?_, fun k hk => ?_, fun l => ?_, fun l hl => ?_⟩
  · rw [hsame.runner]
    rcases runner_modifyRunner_cases (s := s) (r := r) (k := k) (fun h => { h with core :=
      ((s.runner r).core.dispatchOpen mode (s.proof (s.runner r).proof).openGoals).2 })
      with e | ⟨rfl, _, e⟩
    · rw [setCore, e]
    · rw [setCore, e]
      exact Station.dispatchOpen_solved _ _ _
  · exact (congrArg ListenerSet.slots (congrFun (congrArg Desk.hooks hdesk) k)).trans hk
  · unfold asks
    rw [show (s.dispatchOpen r mode).2.listeners = s.listeners from congrArg Desk.clients hdesk]
  · rw [hsame.registry] at hl
    exact hl

/-- A registration is given up. -/
theorem still_dispose (l : ListenerId) : Still s (s.dispose l) := by
  have hasks : ∀ i, asks { s with listeners := s.listeners.modify l fun x => { x with held := false } } i =
      s.asks i := by
    intro i
    unfold asks
    rw [List.getElem?_modify]
    cases s.listeners[i]? with
    | none => rfl
    | some y => by_cases hi : l = i <;> simp [hi]
  unfold dispose
  split
  · exact .refl s
  · rename_i x _
    simp only
    split
    · split
      · rename_i r _
        have hrun := fun k => runner_modifyRunner_cases (r := r) (k := k)
          (s := { s with listeners := s.listeners.modify l fun x => { x with held := false } })
          (fun h => { h with listeners := h.listeners.remove x.slot })
        refine ⟨rfl, rfl, fun k => ?_, fun k => ?_, fun k hk => ?_, hasks, fun _ => id⟩
        · rcases hrun k with e | ⟨_, _, e⟩ <;> rw [e] <;> rfl
        · rcases hrun k with e | ⟨_, _, e⟩ <;> rw [e] <;> rfl
        · rcases hrun k with e | ⟨_, _, e⟩ <;> rw [e]
          · exact hk
          · exact List.filter_eq_nil_iff.mpr fun y hy => absurd (hk ▸ hy) List.not_mem_nil
      · refine ⟨rfl, rfl, fun _ => rfl, fun _ => rfl, fun _ => id, hasks, fun i hi => ?_⟩
        obtain ⟨y, hy, rfl⟩ := List.mem_map.mp hi
        exact List.mem_map_of_mem (List.mem_filter.mp hy).1
    · exact ⟨rfl, rfl, fun _ => rfl, fun _ => rfl, fun _ => id, hasks, fun _ => id⟩

/-! ## 2. Meek observers -/

theorem literal_perform : ∀ depth, Literal (perform depth)
  | 0 => ⟨fun _ _ => rfl, fun _ _ => Or.inl rfl⟩
  | depth + 1 => by
      refine ⟨fun s hs => ?_, fun _ _ => Or.inr rfl⟩
      show execute (perform depth) .applyFirst s = s
      unfold execute
      simp only
      split
      · rename_i r hr
        rw [hs r hr]
        rfl
      · rfl

theorem still_calls (ha : Literal again) : ∀ (calls : List Call) {s : Session}, Idle s →
    (∀ call ∈ calls, call.isMeek = true) → Still s (calls.foldl (fun s c => again c s) s)
  | [], s, _, _ => .refl s
  | call :: rest, s, hi, hm => by
      have hfirst : Still s (again call s) := by
        cases call with
        | applyFirst =>
            rw [ha.applyFirst s hi]
            exact .refl s
        | dispose l =>
            rcases ha.dispose l s with e | e <;> rw [e]
            · exact .refl s
            · exact still_dispose l
        | proof | dispatch | resume | stop | shutdown => cases hm _ List.mem_cons_self
      exact hfirst.trans (still_calls ha rest (hfirst.idle hi) fun c hc => hm c (List.mem_cons_of_mem _ hc))

theorem still_callListener (ha : Literal again) (hi : Idle s) {l : ListenerId}
    (hm : ∀ call ∈ s.asks l, call.isMeek = true) : Still s (callListener again s l) := by
  unfold callListener
  split
  · exact .refl s
  · rename_i x hx
    have hasks : s.asks l = x.calls := by
      unfold asks
      rw [hx]
      rfl
    exact (still_record _).trans (still_calls ha x.calls (s := s.record _) hi (hasks ▸ hm))

theorem still_callListeners (ha : Literal again) : ∀ (ls : List ListenerId) {s : Session}, Idle s →
    (∀ l ∈ ls, ∀ call ∈ s.asks l, call.isMeek = true) → Still s (ls.foldl (callListener again) s)
  | [], s, _, _ => .refl s
  | l :: rest, s, hi, hm => by
      have hfirst := still_callListener ha hi (hm l List.mem_cons_self)
      refine hfirst.trans (still_callListeners ha rest (hfirst.idle hi) fun k hk => ?_)
      rw [hfirst.asks]
      exact hm k (List.mem_cons_of_mem _ hk)

/-- **Observers ask for meek calls only.** -/
def Meek (s : Session) : Prop := ∀ l ∈ s.registry.observers.targets, ∀ call ∈ s.asks l, call.isMeek = true

theorem isMeek_iff : s.isMeek = true ↔ Meek s := by
  unfold isMeek Meek
  simp only [List.all_eq_true]

theorem Still.meek (hs : Still s s') (h : Meek s) : Meek s' := by
  intro l hl
  rw [hs.asks]
  exact h l (hs.observers l hl)

/-- **Meek observers leave runners and registry alone** while there is no result to apply. -/
theorem still_notifyObservers (ha : Literal again) (hi : Idle s) (hm : Meek s) :
    Still s (notifyObservers again s) := still_callListeners ha _ hi hm

/-- The active runner has proved nothing yet. -/
theorem idle_of_entry (h : s.desk.Orderly) (hact : s.registry.active = some p)
    (he : (p, r) ∈ s.desk.entries) (hs : (s.runner r).core.solved = []) : Idle s := by
  intro k hk
  unfold Registry.activeRunner? at hk
  rw [hact, Option.bind_some, (runnerFor?_eq_some h).mpr he] at hk
  cases hk
  exact hs

/-- A proof whose runner has proved nothing yet becomes the active one. -/
theorem still_activate (ha : Literal again) (hm : Meek s) (h : s.desk.Orderly)
    (he : (p, r) ∈ s.desk.entries) (hs : (s.runner r).core.solved = []) (mode : Mode) :
    Still { s with registry := { s.registry with active := some p } } (activate again s p r mode).2 := by
  have hset : (desk { s with registry := { s.registry with active := some p } }).Orderly := h.setActive he
  have hidle : Idle { s with registry := { s.registry with active := some p } } :=
    idle_of_entry hset rfl he hs
  have hout := still_dispatchOpen (s := { s with registry := { s.registry with active := some p } }) (r := r) mode
  exact hout.trans (still_notifyObservers ha (hout.idle hidle) (hout.meek hm))

/-! ## 3. A candidate loses -/

/-- The end of a runner that tells nobody but the registry is the end of no other. -/
theorem closed_close (ha : Literal again) (hm : Meek s) (h : s.desk.Orderly)
    (hact : s.registry.active = some p) (he : (p, r) ∈ s.desk.entries)
    (hs : (s.runner r).core.solved = []) {k : RunnerId} (hk : k < s.runners.length) (hfree : Free s.desk k)
    (htargets : (s.runner k).listeners.targets = [.registry p]) :
    (close again s k).desk.closed r = s.desk.closed r := by
  have hne : r ≠ k := hfree _ he
  have hend : Keeps s.desk (s.ended k).desk := h.butFor hfree butFor_ended
  have hrun : (s.ended k).runner r = s.runner r :=
    (same_ended.runner r).trans (runner_modifyRunner_of_ne _ hne)
  have hnotify : notifyRunner again (s.ended k) k = notifyObservers again (s.ended k) := by
    have hhooks : ((s.ended k).runner k).listeners = (s.runner k).listeners := by
      rw [same_ended.runner, runner_modifyRunner_self _ hk]
    unfold notifyRunner
    rw [hhooks, htargets]
    show notifyObservers again ((s.ended k).retire p) = _
    rw [retire_of_orderly hend.orderly]
  have hidle : Idle (s.ended k) := idle_of_entry hend.orderly hact he (by rw [hrun]; exact hs)
  have hstill : Still (s.ended k) (notifyObservers again (s.ended k)) :=
    still_notifyObservers ha hidle hm
  cases hopen : (s.runner k).core.closed with
  | true =>
      unfold close
      simp only [hopen, if_true]
  | false =>
      obtain ⟨t, ht, e⟩ := close_open again hopen
      rw [hnotify] at ht
      calc (close again s k).desk.closed r = t.desk.closed r := by
            rw [e]
            exact ((butFor_modifyRunner id).others r hne).1
        _ = (notifyObservers again (s.ended k)).desk.closed r := by rw [ht]
        _ = (s.ended k).desk.closed r := hstill.closed r
        _ = s.desk.closed r := (butFor_ended.others r hne).1

/-- **A candidate loses against a runner that was registered meanwhile**: it ends, and the other one stays. -/
theorem register_loses (hd : Discreet again) (ha : Literal again) (hm : Meek s) (h : s.desk.Orderly)
    (hact : s.registry.active = some p) (he : (p, r) ∈ s.desk.entries)
    (hs : (s.runner r).core.solved = []) {k : RunnerId} (hk : k < s.runners.length) (hfree : Free s.desk k)
    (hbare : (s.runner k).listeners.slots = []) :
    ∃ t, register again s p k = (r, t) ∧ Keeps s.desk t.desk ∧ (p, r) ∈ t.desk.entries := by
  have hadd : Keeps s.desk (s.addTarget k (.registry p)).desk := h.butFor hfree (butFor_modifyRunner id)
  have hfor : (s.addTarget k (.registry p)).registry.runnerFor? p = some r :=
    (runnerFor?_eq_some h).mpr he
  have hclose := hadd.trans (keeps_close (r := k) hd hadd.orderly)
  unfold register
  simp only [hfor]
  refine ⟨_, rfl, hclose, hclose.stays _ he ?_⟩
  have hsolved : ((s.addTarget k (.registry p)).runner r).core.solved = [] := by
    rw [addTarget, runner_modifyRunner_of_ne _ (hfree _ he)]
    exact hs
  have htargets : ((s.addTarget k (.registry p)).runner k).listeners.targets = [.registry p] := by
    rw [addTarget, runner_modifyRunner_self _ hk]
    unfold ListenerSet.targets ListenerSet.add
    simp only [hbare]
    rfl
  have hlen : k < (s.addTarget k (.registry p)).runners.length := by
    rw [addTarget, length_modifyRunner]
    exact hk
  exact (closed_close (s := s.addTarget k (.registry p)) ha hm hadd.orderly hact he hsolved hlen hfree
    htargets).trans (hadd.orderly.alive (p, r) he).2

/-! ## 4. Any selection -/

theorem length_leaveActive : (s.leaveActive p).runners.length = s.runners.length :=
  congrArg Desk.count (desk_leaveActive (s := s) (p := p))

theorem meek_leaveActive (hm : Meek s) : Meek (s.leaveActive p) := by
  have hasks : ∀ l, (s.leaveActive p).asks l = s.asks l := by
    intro l
    unfold asks
    rw [show (s.leaveActive p).listeners = s.listeners from congrArg Desk.clients desk_leaveActive]
  intro l hl
  rw [registry_leaveActive] at hl
  rw [hasks]
  exact hm l hl

/-- **The selection from inside**: its runner is registered and has proved nothing, its proof is the active
    one, and all older runners have as many listeners as before. -/
theorem selectWith_meek (hd : Discreet again) (ha : Literal again) (hm : Meek s) (h : s.desk.Orderly)
    (hp : s.registry.runnerFor? p = none) :
    let t := (selectWith again id s p).2
    Goes (· = p) s.desk t.desk ∧ Meek t ∧ t.registry.active = some p ∧
      (p, s.runners.length) ∈ t.desk.entries ∧ (t.runner s.runners.length).core.solved = [] ∧
      ∀ k < s.runners.length, (s.runner k).listeners.slots = [] → (t.runner k).listeners.slots = [] := by
  have hleave : Keeps s.desk (s.leaveActive p).desk := keeps_of_desk h desk_leaveActive
  have hgoes := goes_admitted hleave.orderly (by rw [registry_leaveActive]; exact hp) s.registry.settings
  have hentry := mem_admitted (s := s.leaveActive p) (p := p) s.registry.settings
  have hself := runner_admitted (s := s.leaveActive p) (p := p) s.registry.settings
  have hmeek : Meek ((s.leaveActive p).admitted p s.registry.settings) := meek_leaveActive hm
  have hstill := still_activate ha hmeek hgoes.orderly hentry (by rw [hself]) .fresh
  have hkeep := keeps_activate hd hgoes.orderly hentry .fresh
  have hother := fun k hk => runner_admitted_of_ne (s := s.leaveActive p) (p := p) (k := k) s.registry.settings hk
  rw [selectWith_new again hp]
  rw [length_leaveActive] at hstill hkeep hentry hself hother ⊢
  refine ⟨(hleave.weaken.trans hgoes).trans hkeep.weaken, hstill.meek hmeek, hstill.active, ?_, ?_,
    fun k hk hbare => hstill.bare k ?_⟩
  · show _ ∈ Registry.entries _
    rw [hstill.entries]
    exact hentry
  · exact (hstill.solved _).trans (congrArg (·.core.solved) hself)
  · have hhooks : (s.leaveActive p).desk.hooks k = s.desk.hooks k := by rw [desk_leaveActive]
    exact (congrArg (·.listeners.slots) (hother k (Nat.ne_of_lt hk))).trans
      ((congrArg ListenerSet.slots hhooks).trans hbare)

/-- **Two selections at once**: the one from inside registers its runner first, and both return that one. -/
theorem select_race (hd : Discreet again) (ha : Literal again) (hm : Meek s) (h : s.desk.Orderly)
    (hp : s.registry.runnerFor? p = none) (hf : (s.proof p).facade.selectOnSubscribe = true) :
    ∃ r t, Prepares again p s (select again s p) r t := by
  -- the candidate of the selection from outside
  have hleave : Keeps s.desk (s.leaveActive p).desk := keeps_of_desk h desk_leaveActive
  have hnew := keeps_enlist (p := p) hleave.orderly s.registry.settings
  have hlen := length_enlist (s := s.leaveActive p) (p := p) s.registry.settings
  have hflag : (((s.leaveActive p).enlist p s.registry.settings).2.proof p).facade.selectOnSubscribe =
      true := by
    rw [facade_enlist, proof_leaveActive]
    exact hf
  -- the runner of the selection from inside
  obtain ⟨hgoes, hmeek, hact, hentry, hsolved, hslots⟩ := selectWith_meek (p := p) hd ha
    (s := ((s.leaveActive p).enlist p s.registry.settings).2.modifyProof p fun w =>
      { w with facade := { w.facade with selectOnSubscribe := false } })
    (meek_leaveActive hm) hnew.orderly (by rw [← hp, ← registry_leaveActive (s := s) (p := p)]; rfl)
  rw [← afterSubscribe_eq again hflag] at hgoes hmeek hact hentry hsolved hslots
  have hlt := Nat.lt_of_lt_of_eq (Nat.lt_succ_self _) hlen.symm
  have hfree : Free (afterSubscribe again p ((s.leaveActive p).enlist p s.registry.settings).2).desk
      (s.leaveActive p).runners.length := by
    intro e he
    rcases hgoes.news e he with hold | ⟨_, hle⟩
    · exact Nat.ne_of_lt (hleave.orderly.alive e hold).1
    · exact Nat.ne_of_gt (Nat.lt_of_lt_of_le hlt hle)
  have hbare := hslots (s.leaveActive p).runners.length hlt
    (congrArg (·.listeners.slots) (runner_enlist_self (s := s.leaveActive p) s.registry.settings))
  obtain ⟨t, hreg, hk, hmem⟩ := register_loses hd ha hmeek hgoes.orderly hact hentry hsolved
    (Nat.lt_of_lt_of_le hlt hgoes.count) hfree hbare
  have hall := (hleave.trans hnew).weaken.trans (hgoes.trans hk.weaken)
  refine ⟨_, t, hall, hmem, .fresh, ?_⟩
  unfold select selectWith
  simp only [hp]
  rw [show ((s.leaveActive p).enlist p s.registry.settings).1 = (s.leaveActive p).runners.length from rfl,
    hreg]

/-- **Any selection**, as long as observers are meek when there are two at once. -/
theorem select_prepares (hd : Discreet again) (ha : Literal again) (h : s.desk.Orderly)
    (hfair : (s.proof p).facade.selectOnSubscribe = false ∨ Meek s) :
    ∃ r t, Prepares again p s (select again s p) r t := by
  by_cases hone : (s.proof p).facade.selectOnSubscribe = false ∨ ∃ r, s.registry.runnerFor? p = some r
  · rw [select_eq again hone]
    exact selectWith_id again h
  · obtain ⟨hf, hnone⟩ := not_or.mp hone
    have hp : s.registry.runnerFor? p = none := by
      cases hp : s.registry.runnerFor? p with
      | none => rfl
      | some r => exact absurd ⟨r, hp⟩ hnone
    exact select_race hd ha (hfair.resolve_left hf) h hp (Bool.not_eq_false _ ▸ hf)

end Session

end GoalWatch
