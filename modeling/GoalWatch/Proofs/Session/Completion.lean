import GoalWatch.Proofs.Runner.Arrival
import GoalWatch.Proofs.Session.Release

/-!
# What the answers of a batch do

The answers of a batch in flight come in: which of them count, what becomes of the problems, and who is told.

* `Runner.Concluded` -- a runner before and after, field by field;
* `concluded` -- a runner that is consistent takes in any answers so, whatever the proof says it still has;
* `lasting_longer`, `told_in_place` -- a listener is told at its place in the round, whatever clients ask for;
* `Call.isQuiet`, `Session.Telling`, `telling_round` -- and told once, if no client asks for more news;
* **`completion_exact`** -- for every runner, and for every runner of every session with its listeners.
-/

namespace GoalWatch

namespace Runner

variable {c d : Runner} {found kept : NodeId → Bool} {b : BatchId} {outcomes : List Outcome}

/-! ## 1. The runner -/

/-- **What the answers of a batch make of a runner.** The proof was asked twice which nodes it still has. -/
structure Concluded (found kept : NodeId → Bool) (b : BatchId) (outcomes : List Outcome) (c d : Runner) : Prop where
  /-- This batch is over, and no other. -/
  flight : d.inFlight = c.inFlight.filter (· != b)
  /-- Forgotten is what belongs to no batch in flight and whose node the proof no longer has. Of what is left, the
      problems of the batch have the status of the first outcome for their node, and the others are as they were. -/
  problems : d.problems = (c.problems.filter fun p => kept p.node || d.inFlight.contains p.batch).map fun p =>
    if p.batch = b then { p with result := some (statusOf outcomes p.node) } else p
  /-- Proved in addition are the nodes of the batch with a valid answer that the proof still has. -/
  solved : ∀ n, n ∈ d.solved ↔ n ∈ c.solved ∨
    (∃ p ∈ c.problems, p.batch = b ∧ p.node = n) ∧ statusOf outcomes n = .valid ∧ found n = true
  /-- They are listed in ascending order, as before. -/
  ascending : Ascending c → Ascending d
  /-- Nothing else is different. -/
  others : d = { c with inFlight := d.inFlight, problems := d.problems, solved := d.solved }

/-- **The answers of a batch in flight, taken in.** No problem of the batch has a result yet, so each gets one. -/
theorem concluded (h : Consistent c) (hb : b ∈ c.inFlight) (found kept : NodeId → Bool)
    (outcomes : List Outcome) : Concluded found kept b outcomes c (c.afterAnswers found kept b outcomes) := by
  have hopen : ∀ p ∈ c.problems, p.batch = b → p.result = none :=
    fun p hp hpb => h.openFlight p hp (hpb ▸ hb)
  refine ⟨h.flightOnce.erase_eq_filter b, ?_, fun n => ?_, fun hc => ascending_afterAnswers hc _ _ _ _, rfl⟩
  · refine (problems_afterAnswers c found kept (b, outcomes)).trans (List.map_congr_left fun p hp => ?_)
    have hp' := (List.mem_filter.mp hp).1
    by_cases hpb : p.batch = b
    · simp [answer, hpb, Problem.resolve, hopen p hp' hpb]
    · rw [if_neg hpb, answer_of_ne hpb]
  · refine (mem_solved_afterAnswers (x := (b, outcomes))).trans (or_congr_right ?_)
    constructor
    · rintro ⟨p, hp, hpb, _, hn, hv, hf⟩
      exact ⟨⟨p, hp, hpb, hn⟩, hv, hf⟩
    · rintro ⟨⟨p, hp, hpb, hn⟩, hv, hf⟩
      exact ⟨p, hp, hpb, hopen p hp hpb, hn, hv, hf⟩

end Runner

/-! ## 2. A listener at its place -/

namespace Session

variable {s s' t u : Session} {r : RunnerId} {l k : ListenerId} {depth : Nat} {log : List Entry} {homes : List Home}
  {done todo : List Target}

/-- What was written down stays, and clients listen to those they listened to. -/
theorem lasting_longer (log : List Entry) (homes : List Home) :
    Lasting (fun _ => True) fun _ s => log <:+ s.log ∧ s.listeners.map Listener.home = homes where
  aside h hu := by
    obtain ⟨es, e, _⟩ := hu.log
    exact ⟨h.1.trans (e ▸ List.suffix_append es _), hu.homes.trans h.2⟩
  loosen h _ := h
  pause _ h := h
  raise _ h := h
  lower h _ := h
  clear _ h := h
  listener _ _ _ _ _ := trivial
  sink _ _ _ _ _ _ _ _ := trivial
  observer _ _ _ h := ⟨h.1.trans (List.suffix_cons _ _), h.2⟩
  told _ _ _ _ _ _ _ _ h := ⟨h.1.trans (List.suffix_cons _ _), h.2⟩
  fresh _ _ h _ := ⟨h.1.trans (List.suffix_cons _ _), h.2⟩
  flush _ _ _ _ _ _ _ _ _ h := ⟨h.1.trans (List.suffix_cons _ _), h.2⟩

variable (depth) in
theorem longer_calls (calls : List Call) (h : log <:+ s.log ∧ s.listeners.map Listener.home = homes) :
    log <:+ (calls.foldl (fun s c => perform depth c s) s).log ∧
      (calls.foldl (fun s c => perform depth c s) s).listeners.map Listener.home = homes :=
  lasting_foldl (P := fun s => log <:+ s.log ∧ s.listeners.map Listener.home = homes)
    (fun call _ s hs => carried_perform (lasting_longer log homes) depth (fun _ => 0) call s trivial hs) h

variable (depth) in
theorem longer_round (xs : List Target) (h : log <:+ s.log ∧ s.listeners.map Listener.home = homes) :
    log <:+ (xs.foldl (callTarget (perform depth)) s).log ∧
      (xs.foldl (callTarget (perform depth)) s).listeners.map Listener.home = homes := by
  have hI := lasting_longer log homes
  refine lasting_foldl (P := fun s => log <:+ s.log ∧ s.listeners.map Listener.home = homes) (fun x _ s hs => ?_) h
  cases x with
  | registry p =>
      exact lasting_notifyObservers (N := fun _ => 0) hI (carried_perform hI depth)
        (hI.aside (N := fun _ => 0) hs unnoticed_retire)
  | client l =>
      exact lasting_callListener (N := fun _ => 0) hI (carried_perform hI depth)
        (fun _ hs => ⟨hs.1.trans (List.suffix_cons _ _), hs.2⟩) hs

theorem listener_of_home? {home : Home} (h : s.home? l = some home) :
    ∃ x, s.listeners[l]? = some x ∧ x.home = home := by
  rw [home?, List.getElem?_map] at h
  exact Option.map_eq_some_iff.mp h

/-- **A listener is told when the round has come to it**, whatever those before it asked for and whatever it asks
    for itself. -/
theorem told_in_place (hl : t.home? l = some (.runner r))
    (hx : (t.runner r).listeners.targets = done ++ .client l :: todo) :
    let u := done.foldl (callTarget (perform depth)) t
    .notified l (u.view (.runner r)) :: u.log <:+ (notifyRunner (perform depth) t r).log := by
  intro u
  have hhomes : u.listeners.map Listener.home = t.listeners.map Listener.home :=
    (longer_round depth done ⟨List.suffix_rfl, rfl⟩).2
  obtain ⟨x, hx', hhome⟩ := listener_of_home? (s := u) (l := l) (by rw [home?, hhomes]; exact hl)
  have hcall : callTarget (perform depth) u (.client l) =
      x.calls.foldl (fun s c => perform depth c s) (u.record (.notified l (u.view (.runner r)))) := by
    simp only [callTarget, callListener, hx', hhome]
  rw [notifyRunner, hx, List.foldl_append, List.foldl_cons]
  show _ <:+ (todo.foldl _ (callTarget (perform depth) u (.client l))).log
  rw [hcall]
  have htold : .notified l (u.view (.runner r)) :: u.log <:+ (u.record (.notified l (u.view (.runner r)))).log :=
    List.suffix_rfl
  exact (longer_round depth todo (longer_calls depth x.calls ⟨htold, rfl⟩)).1

/-! ## 3. Clients that ask for no more news -/

end Session

/-- The call by itself tells nobody of a change. -/
def Call.isQuiet : Call → Bool
  | .dispatch _ | .resume _ | .stop _ | .dispose _ => true
  | .proof .. | .shutdown _ | .applyFirst => false

namespace Session

variable {s s' t u : Session} {r : RunnerId} {l k : ListenerId} {depth : Nat} {done todo : List Target}
  {vs ws : List View}

/-- No client asks for more news. -/
def Quiet (s : Session) : Prop := ∀ calls ∈ s.listeners.map Listener.calls, ∀ call ∈ calls, call.isQuiet = true

theorem untold_perform {call : Call} (h : call.isQuiet = true) : ∀ depth, Untold s (perform depth call s)
  | 0 => .refl s
  | depth + 1 => by
      show Untold s (execute (perform depth) call s)
      cases call with
      | dispatch r | resume r =>
          simp only [execute]
          split
          · exact (unnoticed_dispatchOpen _).toUntold
          · exact .refl s
      | stop r =>
          simp only [execute]
          split
          · exact unnoticed_stopAll.toUntold
          · exact .refl s
      | dispose l => exact (unnoticed_dispose l).toUntold
      | proof | shutdown | applyFirst => cases h

/-- **All that a client is told in between**, newest first; clients ask for what they asked for, and nobody new
    observes the registry. -/
structure Telling (l : ListenerId) (vs : List View) (s s' : Session) : Prop where
  homes : s'.listeners.map Listener.home = s.listeners.map Listener.home
  calls : s'.listeners.map Listener.calls = s.listeners.map Listener.calls
  observers : ∀ k ∈ s'.registry.observers.targets, k ∈ s.registry.observers.targets
  views : s'.viewsOf l = vs ++ s.viewsOf l

theorem Untold.telling (h : Untold s s') (l : ListenerId) : Telling l [] s s' :=
  ⟨h.homes, h.calls, h.observers, h.viewsOf l⟩

theorem Telling.trans (h : Telling l vs s t) (h' : Telling l ws t u) : Telling l (ws ++ vs) s u where
  homes := h'.homes.trans h.homes
  calls := h'.calls.trans h.calls
  observers k hk := h.observers k (h'.observers k hk)
  views := by rw [h'.views, h.views, List.append_assoc]

theorem Telling.quiet (h : Telling l vs s s') (hq : Quiet s) : Quiet s' := by
  unfold Quiet
  rw [h.calls]
  exact hq

theorem telling_notified (s : Session) (l k : ListenerId) (v : View) :
    Telling l (if k = l then [v] else []) s (s.record (.notified k v)) where
  homes := rfl
  calls := rfl
  observers _ h := h
  views := by
    show List.filterMap _ (_ :: _) = _
    split
    · rename_i hk
      exact List.filterMap_cons_some (if_pos hk)
    · rename_i hk
      exact List.filterMap_cons_none (if_neg hk)

/-- Nothing is told by any of the steps. -/
theorem telling_foldl {α : Type} {f : Session → α → Session} {xs : List α}
    (hf : ∀ x ∈ xs, ∀ t, Telling l [] s t → Telling l [] t (f t x)) : Telling l [] s (xs.foldl f s) :=
  lasting_foldl (P := Telling l [] s) (fun x hx t ht => ht.trans (hf x hx t ht)) ((Untold.refl s).telling l)

theorem telling_calls (depth : Nat) {calls : List Call} (hc : ∀ call ∈ calls, call.isQuiet = true) :
    Telling l [] s (calls.foldl (fun s c => perform depth c s) s) :=
  telling_foldl fun call hcall _ _ => (untold_perform (hc call hcall) depth).telling l

/-- One client is told, and no other. -/
theorem telling_callListener (depth : Nat) (hq : Quiet s) {x : Listener} (hx : s.listeners[k]? = some x) :
    Telling l (if k = l then [s.view x.home] else []) s (callListener (perform depth) s k) := by
  have hcalls : ∀ call ∈ x.calls, call.isQuiet = true :=
    hq x.calls (List.mem_map_of_mem (List.mem_of_getElem? hx))
  unfold callListener
  rw [hx]
  exact (telling_notified s l k (s.view x.home)).trans (telling_calls depth hcalls)

theorem telling_callListener_other (depth : Nat) (hq : Quiet s) (hk : k ≠ l) :
    Telling l [] s (callListener (perform depth) s k) := by
  cases hx : s.listeners[k]? with
  | none =>
      unfold callListener
      rw [hx]
      exact (Untold.refl s).telling l
  | some x =>
      have h := telling_callListener (l := l) depth hq hx
      rwa [if_neg hk] at h

/-- Observers of the registry are told, and clients of the runner, but not this one. -/
theorem telling_callTarget (depth : Nat) (hq : Quiet s) (hobs : l ∉ s.registry.observers.targets) {x : Target}
    (hx : x ≠ .client l) : Telling l [] s (callTarget (perform depth) s x) := by
  cases x with
  | client k => exact telling_callListener_other depth hq fun e => hx (e ▸ rfl)
  | registry p =>
      have hretire : Telling l [] s (s.retire p) := untold_retire.telling l
      refine hretire.trans (telling_foldl fun k hk t ht => ?_)
      exact telling_callListener_other depth (ht.quiet (hretire.quiet hq))
        fun e => hobs (e ▸ hretire.observers k hk)

theorem telling_others (depth : Nat) (hq : Quiet s) (hobs : l ∉ s.registry.observers.targets) {xs : List Target}
    (hxs : .client l ∉ xs) : Telling l [] s (xs.foldl (callTarget (perform depth)) s) :=
  telling_foldl fun _ hx _ ht =>
    telling_callTarget depth (ht.quiet hq) (fun h => hobs (ht.observers _ h)) fun e => hxs (e ▸ hx)

/-- **A listener is told once in a round**, if no client asks for more news. -/
theorem telling_round (depth : Nat) (hq : Quiet t) (hobs : l ∉ t.registry.observers.targets)
    (hl : t.home? l = some (.runner r)) (hx : (t.runner r).listeners.targets = done ++ .client l :: todo)
    (honce : .client l ∉ done ++ todo) :
    Telling l [(done.foldl (callTarget (perform depth)) t).view (.runner r)] t (notifyRunner (perform depth) t r) := by
  obtain ⟨hdone, htodo⟩ := not_or.mp (mt List.mem_append.mpr honce)
  have h0 := telling_others depth hq hobs hdone
  obtain ⟨x, hx', hhome⟩ := listener_of_home? (s := done.foldl (callTarget (perform depth)) t) (l := l)
    (by rw [home?, h0.homes]; exact hl)
  have h1 := telling_callListener (l := l) depth (h0.quiet hq) hx'
  rw [if_pos rfl, hhome] at h1
  have h2 := telling_others depth ((h0.trans h1).quiet hq) (fun h => hobs ((h0.trans h1).observers l h)) htodo
  rw [notifyRunner, hx, List.foldl_append, List.foldl_cons]
  exact (h0.trans h1).trans h2

/-! ## 4. Completions -/

theorem lt_of_inFlight {b : BatchId} (h : b ∈ (s.runner r).core.inFlight) : r < s.runners.length := by
  refine Nat.lt_of_not_le fun hle => ?_
  rw [runner_of_le hle] at h
  exact absurd h List.not_mem_nil

/-- The place of a client is its only one. -/
theorem Attached.not_mem (h : Attached s) (hx : (s.runner r).listeners.targets = done ++ .client l :: todo) :
    .client l ∉ done ++ todo := by
  intro hin
  have hcount := h.once r l
  have hpos := List.count_pos_iff.mpr hin
  rw [hx, List.count_append, List.count_cons_self] at hcount
  rw [List.count_append] at hpos
  omega

/-- **The answers of a batch in flight are taken in before anyone is told**: up to there the session differs in this
    runner and in what was written down. -/
theorem complete_begins (depth : Nat) {b : BatchId} (outcomes : List Outcome) (hb : b ∈ (s.runner r).core.inFlight) :
    ∃ t d, (s.runner r).core.complete (s.proof (s.runner r).proof).tree.contains
        (s.proof (s.runner r).proof).tree.contains b outcomes = some d ∧
      t = { s.setCore r d with log := t.log } ∧ t.runner r = { s.runner r with core := d } ∧ Untold s t ∧
      complete (perform depth) s r b outcomes =
        if d.inFlight.isEmpty then (notifyRunner (perform depth) t r).wake r else notifyRunner (perform depth) t r := by
  obtain ⟨es, hes, ⟨hnot, _⟩ | ⟨d, hd, e⟩⟩ := session_complete_cases (perform depth) s r b outcomes
  · exact absurd hb hnot
  · refine ⟨((s.recordAll es).setCore r d).record (.completed r b outcomes), d, hd, rfl, ?_, ?_, e⟩
    · exact runner_modifyRunner_self (s := s) _ (lt_of_inFlight hb)
    · exact ((unnoticed_probed hes).trans (unnoticed_answered (s := s.recordAll es) hd)).toUntold

/-- **What the answers of a batch do.** First, for a runner after any operations, a batch in flight, any outcomes and
    whatever the proof says it still has: the answers are taken in, as `Runner.Concluded` says. Second, for a
    runner after any deals, whose clients may ask for anything when they are called: the session `t` differs from
    the one before in this runner and in what was written down; nobody was told anything yet. Then the listeners of
    the runner are told, one after the other and each at one place, and those who wait are woken if nothing is in
    flight. Each listener is told once, if no client asks for more news. -/
theorem completion_exact :
    (∀ (settings : Settings) (operations : List Runner.Operation) found kept b outcomes,
      let c := operations.foldl Runner.operate { settings }
      b ∈ c.inFlight → ∃ d, c.complete found kept b outcomes = some d ∧ Runner.Concluded found kept b outcomes c d) ∧
    ∀ (depth : Nat) (proofs : List (String × Tree)) (settings : Settings) (ds : List Deal) r b outcomes,
      let s := deals (perform depth) (start proofs settings) ds
      let there := (s.proof (s.runner r).proof).tree.contains
      let after := complete (perform depth) s r b outcomes
      b ∈ (s.runner r).core.inFlight → ∃ t d,
        Runner.Concluded there there b outcomes (s.runner r).core d ∧
        t = { s.setCore r d with log := t.log } ∧ (t.runner r).core = d ∧ (∀ l, t.viewsOf l = s.viewsOf l) ∧
        after = (if d.inFlight.isEmpty then (notifyRunner (perform depth) t r).wake r
          else notifyRunner (perform depth) t r) ∧
        (∀ done l todo, (s.runner r).listeners.targets = done ++ .client l :: todo →
          .client l ∉ done ++ todo ∧
          let u := done.foldl (callTarget (perform depth)) t
          .notified l (u.view (.runner r)) :: u.log <:+ after.log) ∧
        (s.Quiet → ∀ l, .client l ∈ (s.runner r).listeners.targets →
          ∃ v, after.viewsOf l = v :: s.viewsOf l) := by
  constructor
  · intro settings operations found kept b outcomes c hb
    exact ⟨_, Runner.complete_cases.mpr ⟨hb, rfl⟩,
      Runner.concluded (Runner.operated_consistent settings operations) hb found kept outcomes⟩
  · intro depth proofs settings ds r b outcomes s there after hb
    have hattached : Attached s := attached_deals depth proofs settings ds
    have hconsistent : (s.runner r).core.Consistent :=
      consistent_deals depth ds (fun _ hk => absurd hk (Nat.not_lt_zero _)) r (lt_of_inFlight hb)
    obtain ⟨t, d, hd, ht, hrunner, huntold, e⟩ := complete_begins depth outcomes hb
    obtain ⟨_, rfl⟩ := Runner.complete_cases.mp hd
    have htargets : (t.runner r).listeners.targets = (s.runner r).listeners.targets := by rw [hrunner]
    have hlog : after.log = (notifyRunner (perform depth) t r).log := by
      show (complete (perform depth) s r b outcomes).log = _
      rw [e]
      split <;> rfl
    have hhome : ∀ l, .client l ∈ (s.runner r).listeners.targets → t.home? l = some (.runner r) :=
      fun l hl => (huntold.home? l).trans (hattached.listener r l hl)
    refine ⟨t, _, Runner.concluded hconsistent hb _ _ outcomes, ht, by rw [hrunner], huntold.viewsOf, e,
      fun done l todo hx => ⟨hattached.not_mem hx, ?_⟩, fun hq l hl => ?_⟩
    · rw [hlog]
      exact told_in_place (hhome l (hx ▸ List.mem_append_right _ List.mem_cons_self)) (htargets.trans hx)
    · obtain ⟨done, todo, hx⟩ := List.append_of_mem hl
      -- a client that listens to the runner does not observe the registry
      have hobs : l ∉ t.registry.observers.targets := fun h => by
        cases (hattached.observer l (huntold.observers l h)).symm.trans (hattached.listener r l hl)
      have hround := telling_round depth ((huntold.telling l).quiet hq) hobs (hhome l hl) (htargets.trans hx)
        (hattached.not_mem hx)
      refine ⟨(done.foldl (callTarget (perform depth)) t).view (.runner r), ?_⟩
      rw [viewsOf, hlog]
      exact ((huntold.telling l).trans hround).views

/-- Batch 2 is answered while 3 is in flight and 1 was given up. Of its nodes, 2 has two outcomes, 3 is valid but gone, 4
    is valid and 6 has no outcome; node 5 belongs to batch 3. In the session, two clients listen to the runner, and the
    first one asks for a dispatch whenever it is told of a change. -/
theorem completion_exact_mixed :
    let chosen : Settings := { solvers := .ofList [.z3] }
    let operations : List Runner.Operation := [.dispatchOpenGoals [⟨1, .goal "a"⟩], .stopAll,
      .dispatchOpenGoals [⟨2, .goal "b"⟩, ⟨3, .goal "c"⟩, ⟨4, .goal "d"⟩, ⟨6, .goal "e"⟩], .ruleApplied [⟨5, .goal "f"⟩]]
    let c := operations.foldl Runner.operate { settings := chosen }
    let there : NodeId → Bool := fun n => [2, 4, 6].contains n
    let outcomes : List Outcome := [⟨3, .valid, none, none⟩, ⟨2, .invalid, none, none⟩, ⟨2, .valid, none, none⟩,
      ⟨5, .valid, none, none⟩, ⟨4, .valid, none, none⟩]
    let s := deals (perform 2) (start [("p", .ofGoals [.goal "a"])] chosen)
      [.move (.newRunner 0 chosen), .move (.listen (.runner 0) fun _ => [.dispatch 0]),
        .move (.listen (.runner 0) fun _ => []), .move (.runner 0 .dispatch)]
    c.inFlight = [2, 3] ∧ (s.runner 0).core.inFlight = [1] ∧
    (∃ d, c.complete there there 2 outcomes = some d ∧ Runner.Concluded there there 2 outcomes c d ∧ d.inFlight = [3] ∧
      d.solved = [4] ∧ d.problems.map (fun p => (p.node, p.batch, p.result)) =
        [(2, 2, some .invalid), (4, 2, some .valid), (6, 2, some .unknown), (5, 3, none)]) ∧
    ∀ l, .client l ∈ (s.runner 0).listeners.targets →
      ∃ v, (complete (perform 2) s 0 1 [⟨1, .valid, none, none⟩]).viewsOf l = v :: s.viewsOf l := by
  intro chosen operations c there outcomes s
  have hflight : c.inFlight = [2, 3] := by decide +kernel
  have hsession : (s.runner 0).core.inFlight = [1] := by decide +kernel
  refine ⟨hflight, hsession, ?_, ?_⟩
  · obtain ⟨d, hd, h⟩ := completion_exact.1 chosen operations there there 2 outcomes (by decide +kernel)
    have he : d = (c.complete there there 2 outcomes).getD c := by
      rw [hd]
      rfl
    refine ⟨d, hd, h, ?_, ?_, ?_⟩ <;> rw [he] <;> decide +kernel
  · have hquiet : s.listeners.map Listener.calls = [[.dispatch 0], []] := by decide +kernel
    obtain ⟨t, d, _, _, _, _, _, _, honce⟩ := completion_exact.2 2 _ chosen _ 0 1 [⟨1, .valid, none, none⟩]
      (by rw [hsession]; decide)
    refine honce ?_
    unfold Quiet
    rw [hquiet]
    decide

end Session

end GoalWatch
