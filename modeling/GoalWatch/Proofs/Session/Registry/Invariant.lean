import GoalWatch.Proofs.Session.Registry.Race
import GoalWatch.Proofs.Session.ReportScope

/-!
# The registry in every run

* `Move.isFair` -- listeners are added to runners that are there, and observers are meek while a selection sets
  off another one of the same proof;
* `Move.selects` -- the proofs that a move selects;
* `Session.along` -- each move passes a test when it is made;
* `goes_move`, `goes_run` -- fair moves keep the registry in order, one and any number of them;
* **`registry_keeps_open_runners`** -- the registry in every fair run;
* `Move.isHoused` -- listeners are added to runners that are there;
* **`fair_of_housed`** -- as long as no proof is replaced, a run is fair if only this holds.
-/

namespace GoalWatch

/-- **A listener is added to a runner that is there**, and when a selection sets off another one of the same
    proof, observers only ask to apply results and to give up registrations. -/
def Move.isFair (s : Session) : Move → Bool
  | .listen (.runner r) _ => r < s.runners.length
  | .select p => !(s.proof p).facade.selectOnSubscribe || s.isMeek
  | _ => true

/-- **A listener is added to a runner that is there.** -/
def Move.isHoused (s : Session) : Move → Bool
  | .listen (.runner r) _ => r < s.runners.length
  | _ => true

/-- The move selects the proof, or makes it select itself. -/
def Move.selects (s : Session) (p : ProofId) : Move → Bool
  | .select q => q == p
  | .newRunner q _ => q == p && (s.proof q).facade.selectOnSubscribe
  | _ => false

namespace Session

open Desk

variable {s s' : Session} {p : ProofId} {r : RunnerId} {again : Again}

/-- Each move passes the test in the session in which it is made. -/
def along (again : Again) (test : Session → Move → Bool) : Session → List Move → Bool
  | _, [] => true
  | s, m :: rest => test s m && along again test (move again s m) rest

/-! ## 1. Moves -/

theorem keeps_addListener (h : s.desk.Orderly) {home : Home} {calls : ListenerId → List Call}
    (hm : (Move.listen home calls).isFair s = true) : Keeps s.desk (s.addListener home calls).desk := by
  cases home with
  | runner r =>
      have hr : r < s.runners.length := of_decide_eq_true hm
      refine keeps_listeners h (f := fun ls => ls.add (.client s.listeners.length))
        (fun p _ hfirst => tellsFirst_add hfirst _) (fun x hx k hk => ?_) fun x hx e he hk => ?_
      · rcases List.mem_append.mp hx with hx | hx
        · exact h.home x hx k hk
        · rw [List.mem_singleton.mp hx] at hk
          cases hk
          exact hr
      · rcases List.mem_append.mp hx with hx | hx
        · exact h.apart x hx e he hk
        · -- the registry has the first place already
          rw [List.mem_singleton.mp hx] at hk ⊢
          cases hk
          exact Nat.ne_of_gt (h.hooked e he).1
  | registry =>
      refine h.rehook rfl rfl rfl rfl h.hooked (fun x hx k hk => ?_) fun x hx e he hk => ?_
      · rcases List.mem_append.mp hx with hx | hx
        · exact h.home x hx k hk
        · rw [List.mem_singleton.mp hx] at hk
          cases hk
      · rcases List.mem_append.mp hx with hx | hx
        · exact h.apart x hx e he hk
        · rw [List.mem_singleton.mp hx] at hk
          cases hk

theorem desk_refreshes (settings : Settings) : ∀ (entries : List (ProofId × RunnerId)) (s : Session),
    (entries.foldl (fun s e => s.refreshSettings e.2 settings) s).desk = s.desk
  | [], _ => rfl
  | _ :: rest, _ => (desk_refreshes settings rest _).trans (desk_refreshSettings settings)

theorem fair_select (hm : (Move.select p).isFair s = true) :
    (s.proof p).facade.selectOnSubscribe = false ∨ Meek s := by
  unfold Move.isFair at hm
  rw [Bool.or_eq_true, Bool.not_eq_true', isMeek_iff] at hm
  exact hm

section Moves

variable (ha : Discreet again)

include ha

theorem keeps_refreshAll (h : s.desk.Orderly) (settings : Settings) :
    Keeps s.desk (refreshAll again s settings).desk := by
  have hdesk := desk_refreshes settings s.registry.entries { s with registry := { s.registry with settings } }
  unfold refreshAll
  simp only
  split
  · exact keeps_then_observers ha h ((desk_dispatchOpen .fresh).trans hdesk)
  · exact keeps_then_observers ha h hdesk

/-- Runners end one after the other. -/
theorem closes_all : ∀ (entries : List (ProofId × RunnerId)) {s : Session}, s.desk.Orderly →
    Keeps s.desk (entries.foldl (fun s e => close again s e.2) s).desk ∧
      ∀ e ∈ entries, e.2 < s.desk.count →
        (entries.foldl (fun s e => close again s e.2) s).desk.closed e.2 = true
  | [], _, h => ⟨h.keeps, fun _ he => absurd he List.not_mem_nil⟩
  | x :: rest, s, h => by
      obtain ⟨hk, hclosed⟩ := close_goes (r := x.2) ha h
      obtain ⟨hk', hrest⟩ := closes_all rest hk.orderly
      refine ⟨hk.trans hk', fun e he hlt => ?_⟩
      rcases List.mem_cons.mp he with rfl | he
      · exact hk'.closed _ (hclosed hlt)
      · exact hrest e he (Nat.lt_of_lt_of_le hlt hk.count)

/-- The registry forgets all runners first, then they end. -/
theorem keeps_shutdownAll (h : s.desk.Orderly) : Keeps s.desk (shutdownAll again s).desk := by
  have hnone : (desk { s with registry := { s.registry with active := none, entries := [] } }).Orderly :=
    h.narrow (List.nil_sublist _) (fun _ hq => by cases hq) rfl (Nat.le_refl _)
      fun _ he => absurd he List.not_mem_nil
  obtain ⟨hk, hclosed⟩ := closes_all ha s.registry.entries hnone
  have hend := hk.trans (keeps_notifyObservers ha hk.orderly)
  refine ⟨hend.orderly, hend.count, hend.closed, fun e he hopen => ?_, fun e he => ?_⟩
  · have hlt : e.2 < s.runners.length := (h.alive e he).1
    have hc := (keeps_notifyObservers ha hk.orderly).closed _ (hclosed e he hlt)
    cases hc.symm.trans hopen
  · exact absurd (hend.mem he) List.not_mem_nil

theorem goes_newRunner (h : s.desk.Orderly) (settings : Settings) :
    Goes (fun q => (Move.newRunner p settings).selects s q = true) s.desk
      (newRunner again s p settings).2.desk := by
  have hnew := keeps_enlist (p := p) h settings
  have hstanding : (newRunner again s p settings).2.desk =
      (afterSubscribe again p (s.enlist p settings).2).desk := desk_modifyRunner rfl rfl
  rw [hstanding]
  cases hf : (s.proof p).facade.selectOnSubscribe with
  | false =>
      rw [afterSubscribe_enlist again settings hf]
      exact hnew.weaken
  | true =>
      rw [afterSubscribe_eq again (by rw [facade_enlist]; exact hf)]
      obtain ⟨r, t, hprep⟩ := selectWith_id (p := p) again
        (s := (s.enlist p settings).2.modifyProof p fun w =>
          { w with facade := { w.facade with selectOnSubscribe := false } }) hnew.orderly
      have hgoes := (hnew.weaken.trans hprep.goes).trans (hprep.keeps ha).2.weaken
      refine hgoes.mono fun q hq => ?_
      rw [Move.selects, hf, hq, Bool.and_true]
      exact beq_self_eq_true p

theorem keeps_runnerCall (h : s.desk.Orderly) (call : RunnerCall) :
    Keeps s.desk (runnerCall again s r call).2.desk := by
  cases call with
  | dispatch => exact keeps_of_desk h (desk_dispatchOpen .fresh)
  | resume => exact keeps_of_desk h (desk_dispatchOpen .retry)
  | ruleApplied goals => exact keeps_of_desk h (desk_ruleApplied goals)
  | autoStarted => exact keeps_of_desk h desk_autoStarted
  | autoStopped => exact keeps_of_desk h desk_autoStopped
  | treeChanged => exact keeps_treeChanged ha h
  | close => exact keeps_close ha h
  | completed batch outcomes => exact keeps_complete ha h batch outcomes
  | refresh settings => exact keeps_of_desk h (desk_refreshSettings settings)
  | setSolvers solvers => exact keeps_of_desk h (desk_setSolvers solvers)
  | stopAll => exact keeps_of_desk h desk_stopAll

/-- **A fair move keeps the registry in order**, and registers runners for the proofs that it selects only. -/
theorem goes_move (hl : Literal again) (h : s.desk.Orderly) {m : Move} (hm : m.isFair s = true) :
    Goes (fun q => m.selects s q = true) s.desk (move again s m).desk := by
  cases m with
  | select p =>
      obtain ⟨r, t, hprep⟩ := select_prepares ha hl h (fair_select hm)
      refine (hprep.goes.trans (hprep.keeps ha).2.weaken).mono fun q hq => ?_
      rw [hq]
      exact beq_self_eq_true p
  | applyResult n => exact (keeps_applyResult ha h n).weaken
  | refreshAll settings => exact (keeps_refreshAll ha h settings).weaken
  | shutdownAll => exact (keeps_shutdownAll ha h).weaken
  | proof p call => exact (keeps_proofCall ha h call).weaken
  | newRunner p settings => exact goes_newRunner ha h settings
  | runner r call => exact (keeps_runnerCall ha h call).weaken
  | finish o outcomes =>
      show Goes _ s.desk (if .launch o ∈ s.tasks then _ else s).desk
      split
      · exact (keeps_complete ha (s := { s with tasks := s.tasks.erase (.launch o) }) h o.launch.batch
          outcomes).weaken
      · exact h.keeps.weaken
  | listen home calls => exact (keeps_addListener h hm).weaken
  | subscribe p react => exact h.keeps.weaken
  | dispose l => exact (keeps_dispose h l).weaken
  | present p tree facade => exact h.keeps.weaken

/-! ## 2. Every run -/

/-- **Fair moves keep the registry in order**, any number of them. -/
theorem goes_run (hl : Literal again) {N : ProofId → Prop} {test : Session → Move → Bool}
    (hN : ∀ {s m}, test s m = true → m.isFair s = true ∧ ∀ q, m.selects s q = true → N q) :
    ∀ (moves : List Move) {s : Session}, s.desk.Orderly → along again test s moves = true →
      Goes N s.desk (run again s moves).desk
  | [], _, h, _ => h.keeps.weaken
  | m :: rest, s, h, hm => by
      obtain ⟨hfirst, hrest⟩ := Bool.and_eq_true_iff.mp hm
      obtain ⟨hfair, hsel⟩ := hN hfirst
      have hgoes := (goes_move ha hl h hfair).mono hsel
      exact hgoes.trans (goes_run hl hN rest hgoes.orderly hrest)

/-! ## 3. Selections -/

omit ha in
/-- A proof that has a runner keeps it when it is selected. -/
theorem select_registered (h : s.registry.runnerFor? p = some r) : (select again s p).1 = r := by
  unfold select selectWith
  simp only [h]
  rfl

/-- **Selected again**, a proof has the same runner as long as that is open. -/
theorem select_again (hl : Literal again) {N : ProofId → Prop} (h : s.desk.Orderly)
    (hfair : (Move.select p).isFair s = true) {t : Session} (hgoes : Goes N (select again s p).2.desk t.desk)
    (hopen : t.desk.closed (select again s p).1 = false) :
    (select again t p).1 = (select again s p).1 := by
  obtain ⟨r, u, hprep⟩ := select_prepares ha hl h (fair_select hfair)
  obtain ⟨hr, hk⟩ := hprep.keeps ha
  rw [hr] at hopen ⊢
  have hstill := (hk.weaken.trans hgoes).stays _ hprep.entry hopen
  exact select_registered ((runnerFor?_eq_some hgoes.orderly).mpr hstill)

/-- **Selected anew after its runner has ended**, a proof gets one that was not there before. -/
theorem select_anew (hl : Literal again) {N : ProofId → Prop} (hN : ¬ N p) (h : s.desk.Orderly)
    (hfair : (Move.select p).isFair s = true) {t : Session} (hgoes : Goes N (select again s p).2.desk t.desk)
    (hclosed : t.desk.closed (select again s p).1 = true) (hfair' : (Move.select p).isFair t = true) :
    t.runners.length ≤ (select again t p).1 := by
  obtain ⟨r, u, hprep⟩ := select_prepares ha hl h (fair_select hfair)
  obtain ⟨hr, hk⟩ := hprep.keeps ha
  obtain ⟨k, v, hprep'⟩ := select_prepares ha hl hgoes.orderly (fair_select hfair')
  rw [hr] at hclosed
  rw [(hprep'.keeps ha).1]
  -- an old runner would be the one that has ended
  refine (hprep'.goes.news _ hprep'.entry).elim (fun hold => ?_) And.right
  have hmem := hk.mem ((hgoes.news _ hold).resolve_right fun hn => hN hn.1)
  have hopen : t.desk.closed k = false := (hgoes.orderly.alive _ hold).2
  rw [hprep.goes.orderly.only hprep.entry hmem] at hopen
  cases hclosed.symm.trans hopen

end Moves

theorem along_append (again : Again) (test : Session → Move → Bool) : ∀ (xs ys : List Move) (s : Session),
    along again test s (xs ++ ys) = (along again test s xs && along again test (run again s xs) ys)
  | [], _, _ => (Bool.true_and _).symm
  | m :: rest, ys, s => by
      show (test s m && along again test (move again s m) (rest ++ ys)) = _
      rw [along_append again test rest ys, ← Bool.and_assoc]
      rfl

theorem along_and (again : Again) (test test' : Session → Move → Bool) : ∀ (moves : List Move) (s : Session),
    along again test s moves = true → along again test' s moves = true →
      along again (fun s m => test s m && test' s m) s moves = true
  | [], _, _, _ => rfl
  | m :: rest, s, h, h' => by
      obtain ⟨h1, h2⟩ := Bool.and_eq_true_iff.mp h
      obtain ⟨h1', h2'⟩ := Bool.and_eq_true_iff.mp h'
      refine Bool.and_eq_true_iff.mpr ⟨Bool.and_eq_true_iff.mpr ⟨h1, h1'⟩, ?_⟩
      exact along_and again test test' rest _ h2 h2'

theorem orderly_start (proofs : List (String × Tree)) (settings : Settings) :
    (start proofs settings).desk.Orderly where
  alive _ he := absurd he List.not_mem_nil
  once := List.nodup_nil
  active _ hp := by cases hp
  hooked _ he := absurd he List.not_mem_nil
  home _ hx := absurd hx List.not_mem_nil
  apart _ hx := absurd hx List.not_mem_nil

/-- **The registry in every run of fair moves.** Every registered runner is open and registered for the proof it
    watches, and the active proof has one. News from a runner, also from one that has ended, is only passed on;
    and a registered runner stays registered until it ends. From one selection of a proof to another, the runner
    is the same as long as it is open; once it has ended, the next selection returns one that was not there
    before. Of proofs that are never replaced, all runs are fair but for their listeners (`fair_of_housed`). -/
theorem registry_keeps_open_runners (depth : Nat) (proofs : List (String × Tree)) (settings : Settings)
    (moves : List Move)
    (hm : along (perform depth) Move.isFair (start proofs settings) moves = true) :
    let again := perform depth
    let s := run again (start proofs settings) moves
    (∀ e ∈ s.registry.entries, s.registry.runnerFor? e.1 = some e.2 ∧ e.2 < s.runners.length ∧
      (s.runner e.2).proof = e.1 ∧ (s.runner e.2).core.closed = false) ∧
    (∀ p, s.registry.active = some p → ∃ r, s.registry.runnerFor? p = some r) ∧
    (∀ p, callTarget again s (.registry p) = notifyObservers again s) ∧
    (∀ later, along again Move.isFair s later = true → ∀ e ∈ s.registry.entries,
      ((run again s later).runner e.2).core.closed = false → e ∈ (run again s later).registry.entries) ∧
    ∀ p later, along again Move.isFair s (.select p :: later ++ [.select p]) = true →
      let r := (select again s p).1
      let t := run again s (.select p :: later)
      ((t.runner r).core.closed = false → (select again t p).1 = r) ∧
      ((t.runner r).core.closed = true →
        along again (fun t m => !m.selects t p) (select again s p).2 later = true →
        t.runners.length ≤ (select again t p).1) := by
  intro again s
  have ha : Discreet again := discreet_perform depth
  have hlit : Literal again := literal_perform depth
  have hrun : ∀ (moves : List Move) {s : Session}, s.desk.Orderly →
      along again Move.isFair s moves = true → Goes (fun _ => True) s.desk (run again s moves).desk :=
    fun moves _ h => goes_run ha hlit (fun hfair => ⟨hfair, fun _ _ => trivial⟩) moves h
  have hs : s.desk.Orderly := (hrun moves (orderly_start proofs settings) hm).orderly
  have hw : Wired s := wired_run depth (wired_start proofs settings) moves
  refine ⟨fun e he => ?_, fun p hp => ?_, fun p => ?_, fun later hl e he hopen => ?_, fun p later hl => ?_⟩
  · exact ⟨(runnerFor?_eq_some hs).mpr he, (hw.entry e he).1, (hw.entry e he).2, (hs.alive e he).2⟩
  · obtain ⟨r, hr⟩ := hs.active p hp
    exact ⟨r, (runnerFor?_eq_some hs).mpr hr⟩
  · show notifyObservers again (s.retire p) = _
    rw [retire_of_orderly hs]
  · exact (hrun later hs hl).stays e he hopen
  · rw [along_append, Bool.and_eq_true_iff] at hl
    obtain ⟨hfirst, hlast⟩ := hl
    obtain ⟨hfair, hlater⟩ := Bool.and_eq_true_iff.mp hfirst
    have hfair' := (Bool.and_eq_true_iff.mp hlast).1
    have hsel := (goes_move ha hlit hs hfair).orderly
    intro r t
    refine ⟨fun hopen => ?_, fun hclosed hnone => ?_⟩
    · exact select_again ha hlit hs hfair (hrun later hsel hlater) hopen
    · have hgoes : Goes (· ≠ p) (select again s p).2.desk t.desk :=
        goes_run ha hlit (fun hboth => by
          obtain ⟨hf, hn⟩ := Bool.and_eq_true_iff.mp hboth
          refine ⟨hf, fun q hq e => ?_⟩
          rw [e] at hq
          rw [hq] at hn
          cases hn) later hsel (along_and again _ _ later _ hlater hnone)
      exact select_anew ha hlit (fun hn => hn rfl) hs hfair hgoes hclosed hfair'

/-- A client shuts the registered runner down when it hears that the proof was pruned: the runner that was
    returned twice has ended then, and the next selection returns another one. -/
theorem registry_keeps_open_runners_shut :
    let again := perform 3
    let chosen : Settings := { solvers := .ofList [.z3] }
    let first := start [("p", .ofGoals [.goal "a", .goal "b"])] chosen
    let moves : List Move := [.select 0, .listen (.runner 0) fun _ => [.shutdown 0]]
    let later : List Move := [.proof 0 (.prune 0)]
    let s := run again first moves
    let t := run again s (.select 0 :: later)
    along again Move.isFair first moves = true ∧ s.registry.entries = [(0, 0)] ∧
      along again Move.isFair s (.select 0 :: later ++ [.select 0]) = true ∧ (select again s 0).1 = 0 ∧
      along again (fun t m => !m.selects t 0) (select again s 0).2 later = true ∧
      (t.runner 0).core.closed = true ∧ t.runners.length = 1 ∧ 1 ≤ (select again t 0).1 := by
  intro again chosen first moves later s t
  have hm : along again Move.isFair first moves = true := by decide +kernel
  have hl : along again Move.isFair s (.select 0 :: later ++ [.select 0]) = true := by decide +kernel
  have hsame : (select again s 0).1 = 0 := by decide +kernel
  have hnone : along again (fun t m => !m.selects t 0) (select again s 0).2 later = true := by
    decide +kernel
  have hclosed : (t.runner 0).core.closed = true := by decide +kernel
  have hcount : t.runners.length = 1 := by decide +kernel
  have hselect := (registry_keeps_open_runners 3 _ chosen moves hm).2.2.2.2 0 later hl
  have hanew : 1 ≤ (select again t 0).1 := Nat.le_trans (Nat.le_of_eq hcount.symm)
    (hselect.2 (by decide +kernel) hnone)
  exact ⟨hm, by decide +kernel, hl, hsame, hnone, hclosed, hcount, hanew⟩

/-- What a fair run leaves out: told of the selection from inside, an observer closes the proof. Both runners
    have ended then, and the candidate is registered all the same. -/
example :
    let s := run (perform 3) (start [("p", .ofGoals [.goal "a"])] { solvers := .ofList [.z3] })
      [.present 0 (.ofGoals [.goal "a"]) { selectOnSubscribe := true },
        .listen .registry fun _ => [.proof 0 (.applyRule 1 "rule" [])], .select 0]
    s.registry.entries = [(0, 0)] ∧ (s.runner 0).core.closed = true := by decide +kernel

/-! ## 4. Proofs that answer for themselves -/

/-- No such proof selects itself, so of fairness only the listeners are left. -/
theorem isFair_of_plain (h : ∀ p, (s.proof p).facade = {}) (m : Move) : m.isFair s = m.isHoused s := by
  cases m with
  | select p =>
      show (!(s.proof p).facade.selectOnSubscribe || s.isMeek) = true
      rw [h p]
      rfl
  | listen home calls => cases home <;> rfl
  | applyResult | refreshAll | shutdownAll | proof | newRunner | runner | finish | subscribe | dispose | present => rfl

theorem along_isFair_of_plain (ha : Steady again) : ∀ (moves : List Move) {s : Session},
    (∀ p, (s.proof p).facade = {}) → (∀ m ∈ moves, m.replaces = false) →
      along again Move.isFair s moves = along again Move.isHoused s moves
  | [], _, _, _ => rfl
  | m :: rest, s, h, hm => by
      have hnext : ∀ p, ((move again s m).proof p).facade = {} := fun p =>
        plain_move ha (hm m List.mem_cons_self) (h p)
      have hrest := along_isFair_of_plain ha rest hnext fun k hk => hm k (List.mem_cons_of_mem _ hk)
      unfold along
      rw [isFair_of_plain h, hrest]

/-- **A run in which no proof is replaced is fair** if its listeners are added to runners that are there: observers
    may then ask for anything. -/
theorem fair_of_housed (depth : Nat) (proofs : List (String × Tree)) (settings : Settings) (moves : List Move)
    (hm : ∀ m ∈ moves, m.replaces = false)
    (hl : along (perform depth) Move.isHoused (start proofs settings) moves = true) :
    along (perform depth) Move.isFair (start proofs settings) moves = true := by
  rw [along_isFair_of_plain (steady_perform depth) moves (candid_start proofs settings).plain hm]
  exact hl

end Session

end GoalWatch
