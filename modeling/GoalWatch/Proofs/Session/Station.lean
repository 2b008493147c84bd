import GoalWatch.Proofs.Runner.Station
import GoalWatch.Proofs.Session.Backing

/-!
# The stations of a session

Each runner of a session stands at the tree of its proof. A permitted step is a turn at some of these
stations, and leaves the others alone.

* `Session.station` -- a runner with its tree and its marks;
* `Permit.grant` -- what a permit allows at one station;
* `turn_pass` -- a permitted step is a turn at a station, or nothing happens there;
* `Session.Posted` -- all stations are sound, kept by every permitted step;
* `stations_passes` -- what every turn keeps, permitted steps keep at all stations.
-/

namespace GoalWatch

/-- What a permit allows at the station of a runner that watches the proof. -/
def Permit.grant (P : Permit) (p : ProofId) (r : RunnerId) : Grant where
  edits := P.edits p
  stops := P.stops r
  refreshes := P.refreshes r
  closes := P.closes r
  answers := P.answers r

namespace Session

open Station (Turn Sound)

/-- A runner at the tree of its proof, with its marks. -/
def station (s : Session) (r : RunnerId) : Station where
  tree := (s.proof (s.runner r).proof).tree
  core := (s.runner r).core
  deeds := s.deeds r

variable {P : Permit} {s s' : Session} {p : ProofId} {r k : RunnerId}

/-! ## 1. Steps are turns -/

/-- A change of one runner's memory with its marks is a turn at its station if it is one of the runner; all
    other stations stay as they are. -/
theorem turn_put {t : Session} {G : Grant} (core : Runner) (ds : List Deed) (hr : r < s.runners.length)
    (hrun : t.runner = (s.setCore k core).runner) (hproof : ∀ q, t.proof q = s.proof q)
    (hd : t.deeds r = (if k = r then ds else []) ++ s.deeds r)
    (ht : k = r → Turn G (s.station r) ((s.station r).put core ds)) :
    t.station r = s.station r ∨ Turn G (s.station r) (t.station r) := by
  by_cases he : k = r
  · have hst : t.station r = (s.station r).put core ds := by
      subst he
      unfold station
      rw [hrun, hd, if_pos rfl, setCore, runner_modifyRunner_self _ hr, hproof]
      rfl
    rw [hst]
    exact Or.inr (ht he)
  · left
    unfold station
    rw [hrun, hd, if_neg he, setCore, runner_modifyRunner_of_ne _ (fun e => he e.symm), hproof]
    rfl

/-- A change that leaves runners and marks alone, and the tree of a runner's proof. -/
theorem station_eq (hrun : s'.runner r = s.runner r)
    (ht : (s'.proof (s.runner r).proof).tree = (s.proof (s.runner r).proof).tree)
    (hd : s'.deeds r = s.deeds r) : s'.station r = s.station r := by
  unfold station
  rw [hrun, ht, hd]

theorem runner_takeLaunch (result : Option Launch × Runner) :
    (s.takeLaunch k result).2.runner = (s.setCore k result.2).runner := by
  unfold takeLaunch
  cases result.1 <;> rfl

/-- **A permitted step is a turn at a station, or nothing happens there.** -/
theorem turn_pass (hG : ¬ P.anyGoals) (hP : ¬ P.anyProof) (hg : Grounded s) (hs : Pass P s s')
    (hr : r < s.runners.length) : s'.station r = s.station r ∨
      Turn (P.grant (s.runner r).proof r) (s.station r) (s'.station r) := by
  cases hs with
  | remark es h => exact Or.inl (station_eq rfl rfl (deeds_recordAll es fun e he => deed?_of_isRemark (h e he)))
  | announce | desk | clients | tasks => exact Or.inl (station_eq rfl rfl rfl)
  | @rule q _ _ _ goals tree hp h =>
      rcases tree_setTree (s := s) q (s.runner r).proof tree with e | ⟨hq, e⟩
      · exact Or.inl (station_eq rfl e rfl)
      · have he : ((s.setTree q tree).record (.emitted q (.ruleApplied goals))).station r =
            { s.station r with tree } := by
          unfold station
          exact congrArg (fun t => Station.mk t _ _) e
        subst hq
        rw [he]
        exact Or.inr (.rule hp h)
  | @prune q _ tree hp h =>
      rcases tree_setTree (s := s) q (s.runner r).proof tree with e | ⟨hq, e⟩
      · exact Or.inl (station_eq rfl e rfl)
      · have he : (s.setTree q tree).station r = { s.station r with tree } := by
          unfold station
          exact congrArg (fun t => Station.mk t _ _) e
        subst hq
        rw [he]
        exact Or.inr (.prune hp h)
  | @hold q _ f hf _ =>
      rcases proof_modifyProof_cases (s := s) (p := q) (q := (s.runner r).proof) f with e | ⟨_, _, e⟩
      · exact Or.inl (station_eq rfl (by rw [e]) rfl)
      · exact Or.inl (station_eq rfl (by rw [e, hf]) rfl)
  | watch q f hf _ =>
      rcases proof_modifyProof_cases (s := s) (p := q) (q := (s.runner r).proof) f with e | ⟨_, _, e⟩
      · exact Or.inl (station_eq rfl (by rw [e]) rfl)
      · exact Or.inl (station_eq rfl (by rw [e, (hf _).1]) rfl)
  | present h => exact absurd h hP
  | enlist q settings =>
      refine Or.inl (station_eq (runner_enlist_of_lt settings hr) ?_ rfl)
      rcases proof_enlist_cases (s := s) (p := q) (q := (s.runner r).proof) settings with e | ⟨_, e⟩
      · rw [e]
      · rw [e]
        rfl
  | host k f hc hp =>
      left
      unfold station
      rcases runner_modifyRunner_cases (s := s) (r := k) (k := r) f with e | ⟨_, _, e⟩
      · rw [e]
        rfl
      · rw [e, hc, hp]
        rfl
  | handOut k mode goals h ho =>
      refine turn_put _ _ hr (runner_takeLaunch _) (proof_takeLaunch _) (deeds_takeLaunch _ r) fun e => ?_
      subst e
      exact .handOut mode goals (fun g hm => hg.offered (h.resolve_left hG) hm) ho
  | tune k core h =>
      refine turn_put core [] hr rfl (fun _ => rfl) (by rw [ite_self]; rfl) fun e => ?_
      subst e
      cases h with
      | suspend => exact .suspend
      | unsuspend => exact .unsuspend
      | setSolvers solvers => exact .setSolvers solvers
  | @stop k h =>
      refine turn_put (t := s.stopAll k) _ _ hr rfl (fun _ => rfl) (deeds_giveUp _ r) fun e => ?_
      subst e
      exact .stop h
  | @refresh k h settings =>
      refine turn_put (t := s.refreshSettings k settings) _ _ hr rfl (fun _ => rfl) (deeds_giveUp _ r)
        fun e => ?_
      subst e
      exact .refresh h settings
  | @close k h =>
      refine turn_put (t := s.giveUp k _) _ _ hr rfl (fun _ => rfl) (deeds_giveUp _ r) fun e => ?_
      subst e
      exact .close h
  | @answer k batch outcomes core hL h =>
      refine turn_put core _ hr rfl (fun _ => rfl) (deeds_completed core batch outcomes r)
        fun e => ?_
      subst e
      exact .answer hL h

/-! ## 2. All stations -/

/-- **All stations of a session are sound**, and what was told of stands in the table of its proof. -/
structure Posted (s : Session) : Prop where
  grounded : Grounded s
  unborn : ∀ r, s.runners.length ≤ r → s.deeds r = []
  sound : ∀ r < s.runners.length, (s.station r).Sound

/-- A runner that was not there before stands at its tree with nothing done. -/
theorem station_new (hu : ∀ r, s.runners.length ≤ r → s.deeds r = []) (hs : Pass P s s')
    (hr : s.runners.length ≤ r) (hr' : r < s'.runners.length) :
    ∃ tree settings, s'.station r = ⟨tree, { settings }, []⟩ := by
  have hd : s'.deeds r = [] := (deeds_step_of_le hs.step hr).trans (hu r hr)
  cases hs with
  | enlist p settings =>
      rw [length_enlist] at hr'
      have he : r = s.runners.length := Nat.le_antisymm (Nat.le_of_lt_succ hr') hr
      subst he
      refine ⟨(((s.enlist p settings).2).proof p).tree, settings, ?_⟩
      unfold station
      rw [runner_enlist_self, hd]
  | handOut k mode goals _ _ =>
      refine absurd hr' (Nat.not_lt.mpr ?_)
      unfold takeLaunch
      split
      · simpa [setCore] using hr
      · simpa [setCore, record] using hr
  | host | tune | stop | refresh | close | answer =>
      refine absurd hr' (Nat.not_lt.mpr ?_)
      simpa [stopAll, refreshSettings, giveUp, setCore, recordAll, record, wake] using hr
  | remark | announce | rule | prune | hold | watch | present | desk | clients | tasks =>
      exact absurd hr' (Nat.not_lt.mpr hr)

/-- What holds of new stations and is kept by turns is kept at all stations by a permitted step. -/
theorem stations_pass {I : RunnerId → Station → Prop} (hG : ¬ P.anyGoals) (hP : ¬ P.anyProof)
    (h0 : ∀ r, s.runners.length ≤ r → ∀ tree settings, I r ⟨tree, { settings }, []⟩)
    (hI : ∀ {r p x y}, Sound x → I r x → Turn (P.grant p r) x y → I r y) (hp : Posted s)
    (h : ∀ r < s.runners.length, I r (s.station r)) (hs : Pass P s s') :
    ∀ r < s'.runners.length, I r (s'.station r) := by
  intro r hr'
  rcases Nat.lt_or_ge r s.runners.length with hr | hr
  · rcases turn_pass hG hP hp.grounded hs hr with e | ht
    · rw [e]
      exact h r hr
    · exact hI (hp.sound r hr) (h r hr) ht
  · obtain ⟨tree, settings, e⟩ := station_new hp.unborn hs hr hr'
    rw [e]
    exact h0 r hr tree settings

theorem posted_pass (hG : ¬ P.anyGoals) (hP : ¬ P.anyProof) (h : Posted s) (hs : Pass P s s') :
    Posted s' where
  grounded := grounded_step hG hP h.grounded h.unborn hs.step
  unborn r hr := by
    have hl : s.runners.length ≤ r := Nat.le_trans (grows_step hs.step).runners hr
    rw [deeds_step_of_le hs.step hl, h.unborn r hl]
  sound := stations_pass (I := fun _ => Sound) hG hP (fun _ _ => Station.sound_start)
    (fun hx _ ht => Station.sound_turn hx ht) h h.sound hs

theorem posted_passes (hG : ¬ P.anyGoals) (hP : ¬ P.anyProof) (h : Posted s) (hs : Passes P s s') :
    Posted s' := passes_keep (posted_pass hG hP) h hs

/-- **What holds of new stations and is kept by turns, permitted steps keep at all stations.** -/
theorem stations_passes {I : RunnerId → Station → Prop} (hG : ¬ P.anyGoals) (hP : ¬ P.anyProof)
    (h0 : ∀ r, s.runners.length ≤ r → ∀ tree settings, I r ⟨tree, { settings }, []⟩)
    (hI : ∀ {r p x y}, Sound x → I r x → Turn (P.grant p r) x y → I r y) (hp : Posted s)
    (h : ∀ r < s.runners.length, I r (s.station r)) (hs : Passes P s s') :
    ∀ r < s'.runners.length, I r (s'.station r) := by
  induction hs with
  | start => exact h
  | more hs hlast ih =>
      refine stations_pass hG hP (fun r hr => h0 r ?_) hI (posted_passes hG hP hp hs) ih hlast
      exact Nat.le_trans (grows_passes hs).runners hr

/-- At the station of one runner, permitted steps are turns under the grant of its own proof. -/
theorem station_passes {I : Station → Prop} (hG : ¬ P.anyGoals) (hP : ¬ P.anyProof) (hp : Posted s)
    (hr : r < s.runners.length)
    (hI : ∀ {x y}, Sound x → I x → Turn (P.grant (s.runner r).proof r) x y → I y)
    (h : I (s.station r)) (hs : Passes P s s') : I (s'.station r) := by
  induction hs with
  | start => exact h
  | more hs hlast ih =>
      have hg := grows_passes hs
      have hr' := Nat.lt_of_lt_of_le hr hg.runners
      have hp' := posted_passes hG hP hp hs
      rcases turn_pass hG hP hp'.grounded hlast hr' with e | ht
      · rw [e]
        exact ih
      · rw [hg.watches r hr] at ht
        exact hI (hp'.sound r hr') ih ht

theorem posted_start (proofs : List (String × Tree)) (settings : Settings) :
    Posted (start proofs settings) where
  grounded := ⟨fun _ hr => absurd hr (Nat.not_lt_zero _), fun _ _ _ h => absurd h List.not_mem_nil⟩
  unborn _ _ := rfl
  sound _ hr := absurd hr (Nat.not_lt_zero _)

end Session

end GoalWatch
