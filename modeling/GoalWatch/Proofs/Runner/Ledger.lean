import GoalWatch.Proofs.Runner.Consistent
import Mathlib.Data.List.Count

/-!
# The marks of a runner and its memory

What a runner knows of its batches agrees with the marks it left, from a new runner on.

* `issued`, `completions`, `stops` -- the marks read per batch;
* `Fate` -- a batch is in flight, or was answered once, or was given up once;
* `Runner.Accounted` -- every batch ever handed out has a fate, and its problems know it;
* `Runner.Backed` -- every proved node was handed out and answered valid;
* `accounted_act`, `backed_act` -- every change of a runner keeps both.
-/

namespace GoalWatch

/-! ## 1. Marks per batch -/

/-- The batch that a mark says was handed out. -/
def Deed.issued? : Deed → Option BatchId
  | .launched launch => some launch.batch
  | _ => none

/-- The mark says that answers of the batch were taken in. -/
def Deed.answers (b : BatchId) : Deed → Bool
  | .completed batch _ => batch == b
  | _ => false

/-- The batches handed out, the newest first. -/
def issued (ds : List Deed) : List BatchId := ds.filterMap Deed.issued?

/-- How often answers of a batch were taken in. -/
def completions (ds : List Deed) (b : BatchId) : Nat := ds.countP (Deed.answers b)

/-- How often the launcher was told to give up a batch. -/
def stops (ds : List Deed) (b : BatchId) : Nat := ds.count (.stopped b)

@[simp] theorem issued_append (ds es : List Deed) : issued (ds ++ es) = issued ds ++ issued es :=
  List.filterMap_append

@[simp] theorem completions_append (ds es : List Deed) (b : BatchId) :
    completions (ds ++ es) b = completions ds b + completions es b := List.countP_append

@[simp] theorem stops_append (ds es : List Deed) (b : BatchId) :
    stops (ds ++ es) b = stops ds b + stops es b := List.count_append

theorem mem_issued {ds : List Deed} {b : BatchId} :
    b ∈ issued ds ↔ ∃ launch, .launched launch ∈ ds ∧ launch.batch = b := by
  refine List.mem_filterMap.trans ⟨?_, ?_⟩
  · rintro ⟨d, hd, he⟩
    cases d with
    | launched launch => exact ⟨launch, hd, by simpa [Deed.issued?] using he⟩
    | completed | stopped => simp [Deed.issued?] at he
  · rintro ⟨launch, hl, rfl⟩
    exact ⟨_, hl, rfl⟩

section Given

variable (l : List BatchId) (b : BatchId)

@[simp] theorem issued_stopped : issued (l.map Deed.stopped).reverse = [] := by
  refine List.eq_nil_iff_forall_not_mem.mpr fun b h => ?_
  obtain ⟨launch, hl, _⟩ := mem_issued.mp h
  simp at hl

@[simp] theorem completions_stopped : completions (l.map Deed.stopped).reverse b = 0 := by
  refine List.countP_eq_zero.mpr fun d hd => ?_
  obtain ⟨x, _, rfl⟩ := List.mem_map.mp (List.mem_reverse.mp hd)
  simp [Deed.answers]

@[simp] theorem stops_stopped : stops (l.map Deed.stopped).reverse b = l.count b := by
  unfold stops
  rw [List.count_reverse]
  exact List.count_map_of_injective l Deed.stopped (fun x y h => by cases h; rfl) b

@[simp] theorem completions_launched (launch : Launch) : completions [.launched launch] b = 0 := rfl

@[simp] theorem stops_launched (launch : Launch) : stops [.launched launch] b = 0 := by
  simp [stops]

@[simp] theorem completions_completed (batch : BatchId) (os : List Outcome) :
    completions [.completed batch os] b = if batch = b then 1 else 0 := by
  simp [completions, Deed.answers, List.countP_cons]

@[simp] theorem stops_completed (batch : BatchId) (os : List Outcome) :
    stops [.completed batch os] b = 0 := by
  simp [stops]

end Given

/-- **The fate of a batch that was handed out**: it is in flight, or it was answered once, or it was given
    up once; these exclude each other. -/
def Fate (c : Runner) (ds : List Deed) (b : BatchId) : Prop :=
  (b ∈ c.inFlight ∧ completions ds b = 0 ∧ stops ds b = 0) ∨
  (b ∉ c.inFlight ∧ completions ds b = 1 ∧ stops ds b = 0) ∨
  (b ∉ c.inFlight ∧ completions ds b = 0 ∧ stops ds b = 1)

namespace Runner

/-! ## 2. Every batch has a fate -/

/-- **What a runner knows of its batches agrees with its marks.** -/
structure Accounted (c : Runner) (ds : List Deed) : Prop where
  consistent : Consistent c
  /-- No number is handed out twice. -/
  once : (issued ds).Nodup
  below : ∀ b ∈ issued ds, b < c.nextBatch
  flying : ∀ b ∈ c.inFlight, b ∈ issued ds
  fate : ∀ b ∈ issued ds, Fate c ds b
  /-- A batch that was never handed out was neither answered nor given up. -/
  foreign : ∀ b, b ∉ issued ds → completions ds b = 0 ∧ stops ds b = 0
  /-- A problem has a result iff its batch was answered. -/
  answered : ∀ p ∈ c.problems, p.batch ∈ issued ds ∧ (p.result = none ↔ completions ds p.batch = 0)

variable {c c' : Runner} {ds es : List Deed}

theorem accounted_start (settings : Settings) : Accounted { settings } [] where
  consistent := consistent_start settings
  once := List.nodup_nil
  below _ h := absurd h List.not_mem_nil
  flying _ h := absurd h List.not_mem_nil
  fate _ h := absurd h List.not_mem_nil
  foreign _ _ := ⟨rfl, rfl⟩
  answered _ h := absurd h List.not_mem_nil

/-- A runner that only changes what its account does not look at. -/
theorem Accounted.congr (h : Accounted c es) (hc : Consistent c') (hf : c'.inFlight = c.inFlight)
    (hp : c'.problems = c.problems) (hb : c.nextBatch ≤ c'.nextBatch) : Accounted c' es where
  consistent := hc
  once := h.once
  below b hb' := Nat.lt_of_lt_of_le (h.below b hb') hb
  flying := by rw [hf]; exact h.flying
  fate b hb' := by unfold Fate; rw [hf]; exact h.fate b hb'
  foreign := h.foreign
  answered := by rw [hp]; exact h.answered

/-- The next number was neither handed out nor answered nor given up. -/
theorem Accounted.next_unused (h : Accounted c es) :
    c.nextBatch ∉ issued es ∧ completions es c.nextBatch = 0 ∧ stops es c.nextBatch = 0 := by
  have hn : c.nextBatch ∉ issued es := fun hm => absurd (h.below _ hm) (Nat.lt_irrefl _)
  exact ⟨hn, h.foreign _ hn⟩

theorem accounted_afterLaunch (h : Accounted c es) {picked : List Goal}
    (hc : Consistent (c.afterLaunch picked)) :
    Accounted (c.afterLaunch picked) ([.launched (c.launchOf picked)] ++ es) := by
  obtain ⟨hn, hcompl, hstop⟩ := h.next_unused
  have hissued : issued ([.launched (c.launchOf picked)] ++ es) = c.nextBatch :: issued es := rfl
  refine ⟨hc, ?_, ?_, ?_, ?_, ?_, ?_⟩
  · rw [hissued]
    exact List.nodup_cons.mpr ⟨hn, h.once⟩
  · intro b hb
    rw [hissued] at hb
    rcases List.mem_cons.mp hb with rfl | hb
    · exact Nat.lt_succ_self _
    · exact Nat.lt_succ_of_lt (h.below b hb)
  · intro b hb
    rw [hissued]
    rcases List.mem_append.mp hb with hb | hb
    · exact List.mem_cons_of_mem _ (h.flying b hb)
    · rw [List.mem_singleton.mp hb]
      exact List.mem_cons_self
  · intro b hb
    rw [hissued] at hb
    unfold Fate
    simp only [completions_append, completions_launched, stops_append, stops_launched, Nat.zero_add]
    have hfly : b ∈ (c.afterLaunch picked).inFlight ↔ b ∈ c.inFlight ∨ b = c.nextBatch := by
      simp [afterLaunch]
    rw [hfly]
    rcases List.mem_cons.mp hb with rfl | hb
    · exact Or.inl ⟨Or.inr rfl, hcompl, hstop⟩
    · have hne : b ≠ c.nextBatch := fun e => hn (e ▸ hb)
      rw [or_iff_left hne]
      exact h.fate b hb
  · intro b hb
    rw [hissued] at hb
    rw [completions_append, completions_launched, stops_append, stops_launched, Nat.zero_add,
      Nat.zero_add]
    exact h.foreign b fun hm => hb (List.mem_cons_of_mem _ hm)
  · intro p hp
    rw [hissued, completions_append, completions_launched, Nat.zero_add]
    rcases List.mem_append.mp hp with hp | hp
    · exact ⟨List.mem_cons_of_mem _ (h.answered p hp).1, (h.answered p hp).2⟩
    · obtain ⟨g, _, rfl⟩ := List.mem_map.mp hp
      exact ⟨List.mem_cons_self, fun _ => hcompl, fun _ => rfl⟩

/-- A batch in flight that is answered has the second fate, and all others keep theirs. -/
theorem accounted_afterAnswers (h : Accounted c es) {found kept : NodeId → Bool} {batch : BatchId}
    {outcomes : List Outcome} (hf : batch ∈ c.inFlight)
    (hc : Consistent (c.afterAnswers found kept batch outcomes)) :
    Accounted (c.afterAnswers found kept batch outcomes) ([.completed batch outcomes] ++ es) := by
  have hissued : issued ([.completed batch outcomes] ++ es) = issued es := rfl
  have hfly : ∀ b, b ∈ c.inFlight.erase batch ↔ b ≠ batch ∧ b ∈ c.inFlight :=
    fun b => h.consistent.flightOnce.mem_erase_iff
  have hbatch : completions es batch = 0 ∧ stops es batch = 0 := by
    rcases h.fate batch (h.flying batch hf) with ⟨_, h1, h2⟩ | ⟨h0, _⟩ | ⟨h0, _⟩
    · exact ⟨h1, h2⟩
    · exact absurd hf h0
    · exact absurd hf h0
  refine ⟨hc, h.once, h.below, ?_, ?_, ?_, ?_⟩
  · intro b hb
    exact h.flying b ((hfly b).mp hb).2
  · intro b hb
    unfold Fate
    show (b ∈ c.inFlight.erase batch ∧ _) ∨ (b ∉ c.inFlight.erase batch ∧ _) ∨
      (b ∉ c.inFlight.erase batch ∧ _)
    rw [hfly, completions_append, completions_completed, stops_append, stops_completed, Nat.zero_add]
    by_cases he : batch = b
    · subst he
      refine Or.inr (Or.inl ⟨fun hm => hm.1 rfl, ?_, hbatch.2⟩)
      rw [if_pos rfl, hbatch.1]
    · have hne : b ≠ batch := fun e => he e.symm
      rw [if_neg he, Nat.zero_add, and_iff_right hne]
      exact h.fate b hb
  · intro b hb
    rw [hissued] at hb
    have hne : batch ≠ b := fun e => hb (e ▸ h.flying batch hf)
    rw [completions_append, completions_completed, if_neg hne, stops_append, stops_completed,
      Nat.zero_add, Nat.zero_add]
    exact h.foreign b hb
  · intro q hq
    obtain ⟨_, p, hp, rfl⟩ := mem_afterAnswers hq
    obtain ⟨hi, hr⟩ := h.answered p hp
    rw [hissued, completions_append, completions_completed]
    split
    · rename_i he
      have he' : batch = p.batch := by simpa using (beq_iff_eq.mp he).symm
      refine ⟨by simpa using hi, fun hn => absurd hn (Problem.resolve_result _ _), fun h0 => ?_⟩
      rw [Problem.resolve_batch, if_pos he'] at h0
      omega
    · rename_i he
      have hne : batch ≠ p.batch := fun e => he (by simp [e])
      rw [if_neg hne, Nat.zero_add]
      exact ⟨hi, hr⟩

/-- When all batches in flight are given up, each of them gets the third fate. -/
theorem accounted_landed (h : Accounted c es) (hf : c'.inFlight = [])
    (hp : c'.problems = [] ∨ c'.problems = c.problems ∧ c'.dispatched = c.dispatched)
    (hb : c'.nextBatch = c.nextBatch) :
    Accounted c' ((c.inFlight.map .stopped).reverse ++ es) := by
  refine ⟨h.consistent.landed hf hp hb, ?_, ?_, ?_, ?_, ?_, ?_⟩
  · simpa using h.once
  · intro b hm
    rw [hb]
    exact h.below b (by simpa using hm)
  · intro b hm
    rw [hf] at hm
    exact absurd hm List.not_mem_nil
  · intro b hm
    unfold Fate
    rw [hf, completions_append, completions_stopped, stops_append, stops_stopped, Nat.zero_add]
    rcases h.fate b (by simpa using hm) with ⟨hfly, h1, h2⟩ | ⟨hfly, h1, h2⟩ | ⟨hfly, h1, h2⟩
    · refine Or.inr (Or.inr ⟨List.not_mem_nil, h1, ?_⟩)
      rw [h2, List.count_eq_one_of_mem h.consistent.flightOnce hfly]
    · refine Or.inr (Or.inl ⟨List.not_mem_nil, h1, ?_⟩)
      rw [h2, List.count_eq_zero_of_not_mem hfly]
    · refine Or.inr (Or.inr ⟨List.not_mem_nil, h1, ?_⟩)
      rw [h2, List.count_eq_zero_of_not_mem hfly]
  · intro b hm
    have hn : b ∉ issued es := by simpa using hm
    have hfly : b ∉ c.inFlight := fun hf => hn (h.flying b hf)
    rw [completions_append, completions_stopped, stops_append, stops_stopped,
      List.count_eq_zero_of_not_mem hfly]
    simpa using h.foreign b hn
  · intro p hm
    rcases hp with hp | ⟨hp, _⟩
    · rw [hp] at hm
      exact absurd hm List.not_mem_nil
    · rw [issued_append, issued_stopped, List.nil_append, completions_append, completions_stopped,
        Nat.zero_add]
      exact h.answered p (hp ▸ hm)

theorem accounted_act (h : Accounted c es) (ha : Act c ds c') : Accounted c' (ds ++ es) := by
  have hc : Consistent c' := consistent_act h.consistent ha
  cases ha with
  | dispatch mode goals =>
      rcases dispatch_cases c mode goals with ⟨e, _⟩ | ⟨_, _, _, e⟩
      · rw [e] at hc ⊢
        exact h.congr hc rfl rfl (Nat.le_succ _)
      · rw [e] at hc ⊢
        exact accounted_afterLaunch h hc
  | suspend =>
      by_cases hclosed : c.closed = true
      · simpa [suspend, hclosed] using h
      · simp only [suspend, hclosed] at hc ⊢
        exact h.congr hc rfl rfl (Nat.le_refl _)
  | unsuspend =>
      by_cases hclosed : c.closed = true
      · simpa [unsuspend, hclosed] using h
      · simp only [unsuspend, hclosed] at hc ⊢
        exact h.congr hc rfl rfl (Nat.le_refl _)
  | setSolvers solvers => exact h.congr hc rfl rfl (Nat.le_refl _)
  | complete hcompl =>
      obtain ⟨hf, rfl⟩ := complete_cases.mp hcompl
      exact accounted_afterAnswers h hf hc
  | stopAll => exact accounted_landed h rfl (Or.inr ⟨rfl, rfl⟩) rfl
  | refresh settings => exact accounted_landed h rfl (Or.inl rfl) rfl
  | close =>
      unfold close
      split
      · exact h
      · exact accounted_landed h rfl (Or.inl rfl) rfl

/-! ## 3. Every proved node was answered -/

/-- **The marks behind a runner's problems and proved nodes.** The order is part of it: the batch was
    handed out before its answers were taken in. -/
structure Backed (c : Runner) (ds : List Deed) : Prop where
  problem : ∀ p ∈ c.problems, ∃ launch, .launched launch ∈ ds ∧ launch.batch = p.batch ∧
    ⟨p.node, p.sequent⟩ ∈ launch.problems
  proved : ∀ n ∈ c.solved, ∃ launch outcomes sequent later earlier,
    ds = later ++ .completed launch.batch outcomes :: earlier ∧ .launched launch ∈ earlier ∧
    ⟨n, sequent⟩ ∈ launch.problems ∧ statusOf outcomes n = .valid

theorem backed_start (settings : Settings) : Backed { settings } [] where
  problem _ h := absurd h List.not_mem_nil
  proved _ h := absurd h List.not_mem_nil

/-- More marks take away nothing, and neither do fewer problems or proved nodes. -/
theorem Backed.mono (h : Backed c es) (hp : ∀ p ∈ c'.problems, p ∈ c.problems)
    (hs : ∀ n ∈ c'.solved, n ∈ c.solved) : Backed c' (ds ++ es) where
  problem p hm := by
    obtain ⟨launch, hl, hb, hg⟩ := h.problem p (hp p hm)
    exact ⟨launch, List.mem_append_right _ hl, hb, hg⟩
  proved n hm := by
    obtain ⟨launch, outcomes, q, later, earlier, he, hl, hg, hv⟩ := h.proved n (hs n hm)
    exact ⟨launch, outcomes, q, ds ++ later, earlier, by rw [he, List.append_assoc], hl, hg, hv⟩

theorem backed_afterLaunch (h : Backed c es) (picked : List Goal) :
    Backed (c.afterLaunch picked) ([.launched (c.launchOf picked)] ++ es) := by
  have hold : Backed c ([.launched (c.launchOf picked)] ++ es) :=
    h.mono (fun _ => id) (fun _ => id)
  refine ⟨fun p hp => ?_, hold.proved⟩
  rcases List.mem_append.mp hp with hp | hp
  · exact hold.problem p hp
  · obtain ⟨g, hg, rfl⟩ := List.mem_map.mp hp
    exact ⟨_, List.mem_cons_self, rfl, hg⟩

/-- A node that a batch proves was handed out with that batch. -/
theorem backed_afterAnswers (h : Backed c es) (found kept : NodeId → Bool) (batch : BatchId)
    (outcomes : List Outcome) :
    Backed (c.afterAnswers found kept batch outcomes) ([.completed batch outcomes] ++ es) := by
  have hold : Backed c ([.completed batch outcomes] ++ es) := h.mono (fun _ => id) (fun _ => id)
  refine ⟨fun q hq => ?_, fun n hn => ?_⟩
  · obtain ⟨_, p, hp, rfl⟩ := mem_afterAnswers hq
    have he := hold.problem p hp
    split <;> simpa using he
  · rcases mem_insertNodes.mp hn with hn | ⟨p, hp, rfl⟩
    · exact hold.proved n hn
    · obtain ⟨hp, hv⟩ := List.mem_filter.mp hp
      obtain ⟨hp, hb⟩ := List.mem_filter.mp hp
      simp only [Bool.and_eq_true, beq_iff_eq] at hv hb
      obtain ⟨launch, hl, he, hg⟩ := h.problem p hp
      refine ⟨launch, outcomes, p.sequent, [], es, ?_, hl, hg, hv.1⟩
      rw [he, hb.1]
      rfl

theorem backed_act (h : Backed c es) (ha : Act c ds c') : Backed c' (ds ++ es) := by
  cases ha with
  | dispatch mode goals =>
      rcases dispatch_cases c mode goals with ⟨e, _⟩ | ⟨_, _, _, e⟩
      · rw [e]
        exact h.mono (fun _ => id) (fun _ => id)
      · rw [e]
        exact backed_afterLaunch h _
  | suspend =>
      unfold suspend
      split
      · exact h
      · exact h.mono (fun _ => id) (fun _ => id)
  | unsuspend =>
      unfold unsuspend
      split
      · exact h
      · exact h.mono (fun _ => id) (fun _ => id)
  | setSolvers solvers => exact h.mono (fun _ => id) (fun _ => id)
  | complete hcompl =>
      obtain ⟨_, rfl⟩ := complete_cases.mp hcompl
      exact backed_afterAnswers h _ _ _ _
  | stopAll => exact h.mono (fun _ => id) (fun _ => id)
  | refresh settings => exact h.mono (fun _ hp => absurd hp List.not_mem_nil) (fun _ => id)
  | close =>
      unfold close
      split
      · exact h
      · exact h.mono (fun _ hp => absurd hp List.not_mem_nil)
          (fun _ hn => absurd hn List.not_mem_nil)

end Runner

end GoalWatch
