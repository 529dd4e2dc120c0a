import Trpc.Theory.Co.Hosting

/-!
# The Pool of Contexts

How many contexts a thread allocates. A context is at one of four places: with the main
coroutine, with a coroutine that was started and has not ended, in a slot, or with one
that ended when all slots were taken. So the numbers add up, and as a new context is made
only when no slot is filled, there are never more than were needed at one time, unless
there was no slot left to put one by.

## Main definitions

* `Thread.unfinished`, `Thread.kept`: How many contexts are in use, and how many are lost.
* `Count`: What an operation does to the numbers.
* `Peak`: A run, and how many coroutines there were at most that had not ended.

## Theorems

* `step_count`: Every operation counts.
* `peak_pooled`: What a run has allocated.
-/

namespace Co

open Transition

namespace Thread

/-- How many coroutines were started and have not ended. -/
def unfinished (t : Thread) : Nat := (t.entered.filter fun c => c ∉ t.finished).length

/-- How many coroutines have ended and still have their context. -/
def kept (t : Thread) : Nat := t.finished.countP fun c => (t.contextOf c).isSome

/-- What an operation does to the numbers. -/
inductive Count (t t' : Thread) : Prop where
  | same (hallocated : t'.allocated = t.allocated) (htop : t'.env.recycleTop = t.env.recycleTop)
      (hentered : t'.entered.length = t.entered.length)
      (hfinished : t'.finished = t.finished) (hkept : t'.kept = t.kept)
  /-- A coroutine is started on a context from the slots. -/
  | reuses (hallocated : t'.allocated = t.allocated)
      (htop : t'.env.recycleTop + 1 = t.env.recycleTop)
      (hentered : t'.entered.length = t.entered.length + 1)
      (hfinished : t'.finished = t.finished) (hkept : t'.kept = t.kept)
  /-- A coroutine is started on a context that is made for it. -/
  | makes (hallocated : t'.allocated = t.allocated + 1) (hempty : t.env.recycleTop = 0)
      (htop : t'.env.recycleTop = 0) (hentered : t'.entered.length = t.entered.length + 1)
      (hfinished : t'.finished = t.finished) (hkept : t'.kept = t.kept)
  /-- One ends, and its context is put by. -/
  | recycles (c : Coroutine) (hc : c ∉ t.finished) (hallocated : t'.allocated = t.allocated)
      (htop : t'.env.recycleTop = t.env.recycleTop + 1)
      (hentered : t'.entered.length = t.entered.length)
      (hfinished : t'.finished = t.finished ++ [c]) (hkept : t'.kept = t.kept)
  /-- One ends, and there is no slot for its context. -/
  | keeps (c : Coroutine) (hc : c ∉ t.finished) (hallocated : t'.allocated = t.allocated)
      (hfull : t.env.recycleTop = recycleSize) (htop : t'.env.recycleTop = t.env.recycleTop)
      (hentered : t'.entered.length = t.entered.length)
      (hfinished : t'.finished = t.finished ++ [c]) (hkept : t'.kept = t.kept + 1)

theorem kept_congr (t t' : Thread) (hfinished : t'.finished = t.finished)
    (hcontext : ∀ c ∈ t.finished, t'.contextOf c = t.contextOf c) : t'.kept = t.kept := by
  unfold kept
  rw [hfinished]
  refine List.countP_congr ?_
  intro c hc
  rw [hcontext c hc]

/-! ## Starting -/

theorem acquire_count (t t' : Thread) (context : Option ContextId)
    (h : t.acquire = .ok (context, t')) : t'.entered = t.entered ∧ t'.finished = t.finished ∧
      t'.coroutines = t.coroutines ∧
      (t'.allocated = t.allocated ∧ t'.env.recycleTop + 1 = t.env.recycleTop ∨
        t'.allocated = t.allocated + 1 ∧ t.env.recycleTop = 0 ∧ t'.env.recycleTop = 0) := by
  unfold acquire at h
  by_cases hreuse : t.env.reusable = true
  · rw [if_pos hreuse] at h
    obtain ⟨r, hr, heq⟩ := ok_of_bind _ _ _ h
    obtain ⟨rfl, rfl⟩ := Prod.mk.inj (Except.ok.inj heq)
    refine ⟨rfl, rfl, rfl, Or.inl ⟨rfl, ?_⟩⟩
    -- The topmost slot is taken, and no context is made.
    unfold Environment.reuse at hr
    split at hr
    · rename_i hlt
      obtain rfl := Except.ok.inj hr
      have hpos := hlt.1
      change t.env.recycleTop - 1 + 1 = t.env.recycleTop
      omega
    · exact absurd hr (by simp)
  · -- There is none in the slots, so one is made.
    have hzero : t.env.recycleTop = 0 := by
      unfold Environment.reusable at hreuse
      simpa using hreuse
    rw [if_neg hreuse] at h
    obtain ⟨rfl, rfl⟩ := Prod.mk.inj (Except.ok.inj h)
    exact ⟨rfl, rfl, rfl, Or.inr ⟨rfl, hzero, hzero⟩⟩

/-- A coroutine that has not been started takes a context, all others are as they were. -/
theorem equip_count (t u : Thread) (c : Coroutine) (f : Coroutine.Fields)
    (hrunning : f.running = false) (h : t.equip c f = .ok u) : u.entered = t.entered ∧
      u.finished = t.finished ∧ (∀ d, d ≠ c → u.contextOf d = t.contextOf d) ∧
      (u.allocated = t.allocated ∧ u.env.recycleTop + 1 = t.env.recycleTop ∨
        u.allocated = t.allocated + 1 ∧ t.env.recycleTop = 0 ∧ u.env.recycleTop = 0) := by
  unfold equip at h
  rw [hrunning] at h
  simp only [Bool.not_false, if_true] at h
  obtain ⟨⟨context, t1⟩, hacquire, hrest⟩ := ok_of_bind _ _ _ h
  obtain ⟨t2, hprepare, hfields⟩ := ok_of_bind _ _ _ hrest
  obtain rfl := Except.ok.inj hfields
  obtain ⟨hentered, hfinished, hcoroutines, hnumbers⟩ := acquire_count t t1 context hacquire
  -- `prepare` writes registers only.
  cases context with
  | none => exact absurd hprepare (by simp [prepare])
  | some k =>
      obtain rfl := Except.ok.inj hprepare
      refine ⟨hentered, hfinished, ?_, hnumbers⟩
      intro d hd
      rw [contextOf_setFields, if_neg hd]
      exact contextOf_congr t t1 d (congrFun hcoroutines d)

/-- Between operations a coroutine that runs has been entered. -/
def Started (t : Thread) : Prop :=
  ∀ c f, t.coroutines c = some f → f.running = true → c ∈ t.entered

theorem resume_count (t t' : Thread) (h : Sound t) (hstarted : Started t) (c : Coroutine)
    (f : Coroutine.Fields) (v : Option Bitmask) (hf : t.coroutines c = some f)
    (hexit : f.exit = false) (hcStack : c ∉ t.env.cStack) (hresume : t.resume c = .ok (t', v)) :
    Count t t' ∧ Started t' := by
  obtain ⟨u, hequip, hu, henter, hucStack, hother⟩ := equip_spec t h c f hf hexit hcStack
  have hustack : c ∉ u.env.cStack := by
    rw [hucStack]
    exact hcStack
  obtain ⟨k, es, -, hentered, hnodup, hes⟩ := enter_eq u hu c hustack henter
  have ht' : t' = u.inside c k es := by
    unfold resume at hresume
    simp only [hf, hexit, Bool.false_eq_true, if_false, hequip, bind, Except.bind] at hresume
    rw [hentered] at hresume
    exact (Prod.mk.inj (Except.ok.inj hresume)).1.symm
  -- A coroutine that was entered before is not counted again.
  have hagain : c ∈ u.entered → es.length = u.entered.length := by
    intro hc
    refine ((List.perm_ext_iff_of_nodup hnodup hu.enteredOnce).mpr ?_).length_eq
    intro d
    rw [hes d]
    constructor
    · rintro (hd | rfl)
      · exact hd
      · exact hc
    · exact Or.inl
  have hfirst : c ∉ u.entered → es.length = u.entered.length + 1 := by
    intro hc
    have honce : (c :: u.entered).Nodup := List.nodup_cons.mpr ⟨hc, hu.enteredOnce⟩
    refine ((List.perm_ext_iff_of_nodup hnodup honce).mpr ?_).length_eq
    intro d
    rw [hes d, List.mem_cons]
    exact or_comm
  by_cases hrunning : f.running = true
  · -- A coroutine that runs has its context already.
    have hut : u = t := by
      unfold equip at hequip
      rw [hrunning] at hequip
      exact (Except.ok.inj hequip).symm
    subst hut
    rw [ht']
    refine ⟨.same rfl rfl (hagain (hstarted c f hf hrunning)) rfl rfl, ?_⟩
    intro d g hg hd
    exact (hes d).mpr (Or.inl (hstarted d g hg hd))
  · have hnot := Bool.eq_false_iff.mpr hrunning
    obtain ⟨huentered, hufinished, hucontext, hnumbers⟩ := equip_count t u c f hnot hequip
    -- It has not been entered, nor has it ended.
    have hfresh : c ∉ t.entered ∧ c ∉ t.finished := by
      have hclash : ∀ i, t.coroutines c ≠ some ⟨State.RUNNING, some i⟩ := by
        intro i hi
        rw [hf] at hi
        rw [Option.some.inj hi, running_running] at hnot
        exact absurd hnot (by decide)
      cases h.stages c with
      | absent hfields he hx hs => exact ⟨he, hx⟩
      | fresh hfields he hx hs => exact ⟨he, hx⟩
      | ready i hfields hp he hx hs => exact absurd hfields (hclash i)
      | parked i hfields hp he hx hs => exact absurd hfields (hclash i)
      | nested i hm hfields he hx hs => exact absurd hs hcStack
      | done context hfields he hx hs =>
          rw [hf] at hfields
          rw [Option.some.inj hfields, exit_exit] at hexit
          exact absurd hexit (by decide)
      | base i hm hfields he hx hs => exact absurd hs hcStack
    have hkept : (u.inside c k es).kept = t.kept := by
      refine kept_congr t _ hufinished ?_
      intro d hd
      refine hucontext d ?_
      rintro rfl
      exact hfresh.2 hd
    have hlength : es.length = t.entered.length + 1 := by
      rw [hfirst (by rw [huentered]; exact hfresh.1), huentered]
    rw [ht']
    constructor
    · rcases hnumbers with ⟨hallocated, htop⟩ | ⟨hallocated, hempty, htop⟩
      · exact .reuses hallocated htop hlength hufinished hkept
      · exact .makes hallocated hempty htop hlength hufinished hkept
    · intro d g hg hd
      by_cases hdc : d = c
      · exact (hes d).mpr (Or.inr hdc)
      · refine (hes d).mpr (Or.inl ?_)
        rw [huentered]
        exact hstarted d g ((hother d hdc).symm.trans hg) hd

/-! ## Ending -/

/-- A coroutine that ends gives its context to a slot, if there is one. -/
theorem retire_count (t u : Thread) (c : Coroutine) (k : ContextId)
    (hf : t.coroutines c = some ⟨State.RUNNING, some k⟩) (hc : c ∉ t.finished)
    (hretire : t.retire c = .ok u) : u.allocated = t.allocated ∧ u.entered = t.entered ∧
      u.finished = t.finished ++ [c] ∧
      (u.env.recycleTop = t.env.recycleTop + 1 ∧ u.kept = t.kept ∨
        t.env.recycleTop = recycleSize ∧ u.env.recycleTop = t.env.recycleTop ∧
          u.kept = t.kept + 1) := by
  -- Those that have ended before keep what they have.
  have hcount : ∀ w : Thread, w.finished = t.finished ++ [c] →
      (∀ d, d ≠ c → w.contextOf d = t.contextOf d) →
      w.kept = t.kept + if (w.contextOf c).isSome then 1 else 0 := by
    intro w hfinished hother
    unfold kept
    rw [hfinished, List.countP_append, List.countP_singleton]
    congr 1
    refine List.countP_congr ?_
    intro d hd
    rw [hother d (by rintro rfl; exact hc hd)]
  unfold retire at hretire
  rw [hf] at hretire
  simp only at hretire
  by_cases hrecyclable : t.env.recyclable = true
  · rw [if_pos hrecyclable] at hretire
    obtain ⟨e, he, hfields⟩ := ok_of_bind _ _ _ hretire
    obtain rfl := Except.ok.inj hfields
    have htop : e.recycleTop = t.env.recycleTop + 1 := by
      unfold Environment.recycle at he
      split at he
      · obtain rfl := Except.ok.inj he
        rfl
      · exact absurd he (by simp)
    refine ⟨rfl, rfl, rfl, Or.inl ⟨htop, ?_⟩⟩
    refine Eq.trans (hcount _ rfl ?_) ?_
    · exact fun d hd => (contextOf_setFields c d _ _).trans (if_neg hd)
    have hnone : (setEnv e (setFields c ⟨State.RUNNING ^^^ (State.EXIT ||| State.RUNNING), none⟩
        { t with finished := t.finished ++ [c] })).contextOf c = none :=
      (contextOf_setFields c c _ _).trans (if_pos rfl)
    rw [hnone]
    rfl
  · -- All slots are taken, and the coroutine keeps its context.
    have hfull : t.env.recycleTop = recycleSize := by
      unfold Environment.recyclable at hrecyclable
      simpa using hrecyclable
    rw [if_neg hrecyclable] at hretire
    obtain rfl := Except.ok.inj hretire
    refine ⟨rfl, rfl, rfl, Or.inr ⟨hfull, rfl, ?_⟩⟩
    refine Eq.trans (hcount _ rfl ?_) ?_
    · exact fun d hd => (contextOf_setFields c d _ _).trans (if_neg hd)
    have hsome : (setFields c ⟨State.RUNNING ^^^ (State.EXIT ||| State.RUNNING), some k⟩
        { t with finished := t.finished ++ [c] }).contextOf c = some k :=
      (contextOf_setFields c c _ _).trans (if_pos rfl)
    rw [hsome]
    rfl

/-- A switch into a `resume` counts nothing. -/
theorem switchOnly_numbers (t t' : Thread) (next : Option ContextId) (r : Bitmask)
    (h : t.switchOnly next = .ok (t', some r)) : t'.allocated = t.allocated ∧ t'.env = t.env ∧
      t'.entered = t.entered ∧ t'.finished = t.finished ∧ t'.coroutines = t.coroutines := by
  unfold switchOnly at h
  cases next with
  | none => exact absurd h (by simp)
  | some k =>
      cases hpoint : t.contexts k with
      | none =>
          simp only [hpoint] at h
          exact absurd h (by simp)
      | some point =>
          simp only [hpoint] at h
          cases point with
          | start c => exact absurd (Prod.mk.inj (Except.ok.inj h)).2 (by simp)
          | yielded c => exact absurd (Prod.mk.inj (Except.ok.inj h)).2 (by simp)
          | wrapped c => exact absurd h (by simp)
          | resumed caller callee =>
              obtain ⟨rfl, -⟩ := Prod.mk.inj (Except.ok.inj h)
              exact ⟨rfl, rfl, rfl, rfl, rfl⟩

/-- Neither does giving way. -/
theorem leave_numbers (t t' : Thread) (here : Point) (r : Bitmask)
    (h : t.leave here = .ok (t', some r)) : t'.allocated = t.allocated ∧
      t'.env.recycleTop = t.env.recycleTop ∧ t'.entered = t.entered ∧ t'.finished = t.finished ∧
      t'.coroutines = t.coroutines := by
  unfold leave at h
  obtain ⟨coroutine, -, hrest⟩ := ok_of_bind _ _ _ h
  obtain ⟨e, hpop, hrest⟩ := ok_of_bind _ _ _ hrest
  obtain ⟨current, -, hswitch⟩ := ok_of_bind _ _ _ hrest
  -- Popping the stack of coroutines leaves the slots alone.
  have htop : e.recycleTop = t.env.recycleTop := by
    unfold Environment.pop at hpop
    split at hpop
    · exact absurd hpop (by simp)
    · obtain rfl := Except.ok.inj hpop
      rfl
  cases hcontext : (t.setEnv e).contextOf coroutine with
  | none =>
      simp only [hcontext] at hswitch
      obtain ⟨ha, he, hn, hx, hc⟩ := switchOnly_numbers (t.setEnv e) t' _ r hswitch
      exact ⟨ha, by rw [he]; exact htop, hn, hx, hc⟩
  | some k =>
      simp only [hcontext] at hswitch
      obtain ⟨ha, he, hn, hx, hc⟩ :=
        switchOnly_numbers ((t.setEnv e).setRegisters k here) t' _ r hswitch
      exact ⟨ha, by rw [he]; exact htop, hn, hx, hc⟩

/-! ## Every operation -/

theorem kept_of_coroutines (t t' : Thread) (hfinished : t'.finished = t.finished)
    (hcoroutines : t'.coroutines = t.coroutines) : t'.kept = t.kept :=
  kept_congr t t' hfinished fun c _ => contextOf_congr t t' c (congrFun hcoroutines c)

/-- Every operation that respects the rules counts. -/
theorem step_count (t t' : Thread) (h : Sound t) (hstarted : Started t) (o : Operation)
    (hstep : t.Step o t') : Count t t' ∧ Started t' := by
  obtain ⟨hallowed, v, hv⟩ := hstep
  cases o with
  | createCoroutine c =>
      obtain ⟨rfl, -⟩ := Prod.mk.inj (Except.ok.inj hv)
      have hfree : t.coroutines c = none := hallowed
      constructor
      · refine .same rfl rfl rfl rfl (kept_congr t _ rfl ?_)
        intro d hd
        refine (contextOf_setFields c d ⟨0, none⟩ t).trans (if_neg ?_)
        rintro rfl
        -- Nobody has ended who does not exist.
        cases h.stages d with
        | absent hfields he hx hs => exact hx hd
        | fresh hfields he hx hs => exact hx hd
        | ready i hfields hp he hx hs => exact hx hd
        | parked i hfields hp he hx hs => exact hx hd
        | nested i hm hfields he hx hs => exact hx hd
        | done context hfields he hx hs =>
            rw [hfree] at hfields
            exact absurd hfields (by simp)
        | base i hm hfields he hx hs => exact hx hd
      · intro d f hf hrunning
        by_cases hd : d = c
        · subst hd
          rw [createCoroutine_fields] at hf
          rw [← Option.some.inj hf] at hrunning
          exact absurd hrunning (by decide)
        · exact hstarted d f ((Function.update_of_ne hd _ _).symm.trans hf) hrunning
  | resume c =>
      obtain ⟨f, hf⟩ := Option.isSome_iff_exists.mp hallowed.1
      by_cases hexit : f.exit = true
      · have hresume := resume_exit t c f hf hexit
        rw [show t.step (.resume c) = t.resume c from rfl, hresume] at hv
        obtain ⟨rfl, -⟩ := Prod.mk.inj (Except.ok.inj hv)
        exact ⟨.same rfl rfl rfl rfl rfl, hstarted⟩
      · exact resume_count t t' h hstarted c f v hf (Bool.eq_false_iff.mpr hexit) hallowed.2 hv
  | yield =>
      obtain ⟨-, -, u, -, hu, -⟩ := yield_spec t h hallowed
      rw [show t.step .yield = t.yield from rfl, hu] at hv
      obtain ⟨rfl, -⟩ := Prod.mk.inj (Except.ok.inj hv)
      obtain ⟨ha, htop, hentered, hfinished, hcoroutines⟩ := leave_numbers t u _ _ hu
      refine ⟨.same ha htop (congrArg List.length hentered) hfinished
        (kept_of_coroutines t u hfinished hcoroutines), ?_⟩
      unfold Started
      rw [hcoroutines, hentered]
      exact hstarted
  | completes =>
      obtain ⟨-, -, u, -, hu, -, -, -, ⟨context, hended⟩, hother⟩ := wrapped_spec t h hallowed
      rw [show t.step .completes = t.wrapped from rfl, hu] at hv
      obtain ⟨rfl, -⟩ := Prod.mk.inj (Except.ok.inj hv)
      obtain ⟨k, hf, -, hc⟩ := (h.stages t.control).nested_of_mem t _ hallowed h.control_mem
      unfold wrapped at hu
      obtain ⟨w, hretire, hleave⟩ := ok_of_bind _ _ _ hu
      -- The end is counted first, and giving way behind it counts nothing.
      obtain ⟨ha, hentered, hfinished, hnumbers⟩ := retire_count t w t.control k hf hc hretire
      obtain ⟨ha', htop', hentered', hfinished', hcoroutines'⟩ := leave_numbers w u _ _ hleave
      have hkept' := kept_of_coroutines w u hfinished' hcoroutines'
      have hlength' : u.entered.length = t.entered.length := by
        rw [hentered', hentered]
      constructor
      · rcases hnumbers with ⟨htop, hkept⟩ | ⟨hfull, htop, hkept⟩
        · exact .recycles t.control hc (ha'.trans ha) (htop'.trans htop) hlength'
            (hfinished'.trans hfinished) (hkept'.trans hkept)
        · exact .keeps t.control hc (ha'.trans ha) hfull (htop'.trans htop) hlength'
            (hfinished'.trans hfinished) (hkept'.trans hkept)
      · intro d g hg hrunning
        rw [hentered', hentered]
        by_cases hd : d = t.control
        · subst hd
          rw [hended] at hg
          have hflag : (State.EXIT &&& State.RUNNING != 0) = false := by decide
          rw [← Option.some.inj hg] at hrunning
          exact absurd (hflag.symm.trans hrunning) (by decide)
        · exact hstarted d g ((hother d hd).symm.trans hg) hrunning

/-! ## Runs -/

/-- The numbers of a thread add up, and those that have ended were once started. -/
structure Balanced (t : Thread) : Prop where
  started : Started t
  finishedOnce : t.finished.Nodup
  total : t.allocated + t.finished.length = 1 + t.entered.length + t.env.recycleTop + t.kept

/-- A run from the beginning, and how many coroutines had not ended at most. -/
inductive Peak : List Operation → Thread → Nat → Prop where
  | initial : Peak [] initial 0
  | step (os : List Operation) (t t' : Thread) (o : Operation) (n : Nat) : Peak os t n →
      t.Step o t' → Peak (os ++ [o]) t' (max n t'.unfinished)

/-- Who has ended was started. -/
theorem unfinished_add (t : Thread) (h : Sound t) (hfinished : t.finished.Nodup) :
    t.unfinished + t.finished.length = t.entered.length := by
  have hsplit := List.length_eq_length_filter_add (l := t.entered) fun c => c ∈ t.finished
  have hperm : (t.entered.filter fun c => c ∈ t.finished).length = t.finished.length := by
    refine ((List.perm_ext_iff_of_nodup (h.enteredOnce.filter _) hfinished).mpr ?_).length_eq
    intro c
    rw [List.mem_filter, decide_eq_true_eq]
    refine and_iff_right_of_imp ?_
    intro hc
    cases h.stages c with
    | absent hfields he hx hs => exact absurd hc hx
    | fresh hfields he hx hs => exact absurd hc hx
    | ready i hfields hp he hx hs => exact absurd hc hx
    | parked i hfields hp he hx hs => exact absurd hc hx
    | nested i hm hfields he hx hs => exact absurd hc hx
    | done context hfields he hx hs => exact he
    | base i hm hfields he hx hs => exact absurd hc hx
  unfold unfinished
  simp only [decide_not]
  omega

theorem initial_balanced : Balanced initial where
  started := by
    intro c f hf hrunning
    by_cases hc : c = main
    · subst hc
      have hfields : initial.coroutines main = some ⟨0, some 0⟩ := rfl
      rw [hfields] at hf
      rw [← Option.some.inj hf] at hrunning
      exact absurd hrunning (by decide)
    · rw [coroutines_initial c hc] at hf
      exact absurd hf (by simp)
  finishedOnce := List.nodup_nil
  total := rfl

/-- What every operation keeps. -/
theorem step_balanced (t t' : Thread) (h : Sound t) (hbalanced : Balanced t) (o : Operation)
    (hstep : t.Step o t') : Balanced t' := by
  obtain ⟨hcount, hstarted⟩ := step_count t t' h hbalanced.started o hstep
  have htotal := hbalanced.total
  have hnodup : ∀ c, c ∉ t.finished → (t.finished ++ [c]).Nodup := by
    intro c hc
    refine List.nodup_append.mpr ⟨hbalanced.finishedOnce, List.nodup_singleton c, ?_⟩
    intro a ha b hb heq
    rw [List.mem_singleton.mp hb] at heq
    exact hc (heq ▸ ha)
  cases hcount with
  | same hallocated htop hentered hfinished hkept =>
      refine ⟨hstarted, by rw [hfinished]; exact hbalanced.finishedOnce, ?_⟩
      rw [hallocated, htop, hentered, hfinished, hkept]
      exact htotal
  -- One more in use, one less in the slots.
  | reuses hallocated htop hentered hfinished hkept =>
      refine ⟨hstarted, by rw [hfinished]; exact hbalanced.finishedOnce, ?_⟩
      rw [hallocated, hentered, hfinished, hkept]
      omega
  | makes hallocated hempty htop hentered hfinished hkept =>
      refine ⟨hstarted, by rw [hfinished]; exact hbalanced.finishedOnce, ?_⟩
      rw [hallocated, htop, hentered, hfinished, hkept]
      omega
  -- One less in use, one more in the slots or kept.
  | recycles c hc hallocated htop hentered hfinished hkept =>
      refine ⟨hstarted, by rw [hfinished]; exact hnodup c hc, ?_⟩
      rw [hallocated, htop, hentered, hfinished, hkept, List.length_append, List.length_singleton]
      omega
  | keeps c hc hallocated hfull htop hentered hfinished hkept =>
      refine ⟨hstarted, by rw [hfinished]; exact hnodup c hc, ?_⟩
      rw [hallocated, htop, hentered, hfinished, hkept, List.length_append, List.length_singleton]
      omega

/-- What a run has allocated, if at most `n` coroutines were started and had not ended. -/
structure Pooled (t : Thread) (n : Nat) : Prop where
  /-- The main context, those in use, those in the slots, and those that were kept. -/
  total : t.allocated = 1 + t.unfinished + t.env.recycleTop + t.kept
  peak : n + 1 ≤ t.allocated
  /-- As long as there are slots enough no context is lost. -/
  exact : n ≤ recycleSize → t.allocated = n + 1 ∧ t.env.recycleTop = n - t.unfinished ∧
    ∀ c ∈ t.finished, t.contextOf c = none

theorem peak_invariant (os : List Operation) (t : Thread) (n : Nat) (h : Peak os t n) :
    Sound t ∧ Balanced t ∧ t.unfinished ≤ n ∧ n + 1 ≤ t.allocated ∧
      (n ≤ recycleSize → t.allocated = n + 1 ∧ t.kept = 0) := by
  induction h with
  | initial =>
      exact ⟨initial_sound, initial_balanced, Nat.le_refl 0, Nat.le_refl 1, fun _ => ⟨rfl, rfl⟩⟩
  | step os t t' o n _ hstep ih =>
      obtain ⟨hsound, hbalanced, hunfinished, hpeak, hexact⟩ := ih
      have hsound' := (step_move t hsound o t' hstep).2
      have hbalanced' := step_balanced t t' hsound hbalanced o hstep
      have hcount := (step_count t t' hsound hbalanced.started o hstep).1
      have hadd := unfinished_add t hsound hbalanced.finishedOnce
      have hadd' := unfinished_add t' hsound' hbalanced'.finishedOnce
      have htotal := hbalanced.total
      have htotal' := hbalanced'.total
      refine ⟨hsound', hbalanced', Nat.le_max_right _ _, ?_, ?_⟩
      · -- Contexts are not given back, and there are as many as are in use now.
        cases hcount with
        | same hallocated htop hentered hfinished hkept => omega
        | reuses hallocated htop hentered hfinished hkept => omega
        | makes hallocated hempty htop hentered hfinished hkept => omega
        | recycles c hc hallocated htop hentered hfinished hkept => omega
        | keeps c hc hallocated hfull htop hentered hfinished hkept => omega
      · intro hn
        obtain ⟨hallocated, hkept⟩ := hexact (by omega)
        cases hcount with
        | same ha htop hentered hfinished hk => rw [hfinished] at hadd' htotal'; omega
        | reuses ha htop hentered hfinished hk => rw [hfinished] at hadd' htotal'; omega
        | makes ha hempty htop hentered hfinished hk => rw [hfinished] at hadd' htotal'; omega
        | recycles c hc ha htop hentered hfinished hk =>
            rw [hfinished, List.length_append, List.length_singleton] at hadd' htotal'
            omega
        | keeps c hc ha hfull htop hentered hfinished hk =>
            -- All slots are taken and one coroutine has not ended: more than there ever were.
            rw [hfinished, List.length_append, List.length_singleton] at hadd' htotal'
            omega

/-- A run allocates a context for the main coroutine and one for each of those that were
    needed at one time, as long as these are no more than there are slots. -/
theorem peak_pooled (os : List Operation) (t : Thread) (n : Nat) (h : Peak os t n) :
    Pooled t n := by
  obtain ⟨hsound, hbalanced, hunfinished, hpeak, hexact⟩ := peak_invariant os t n h
  have hadd := unfinished_add t hsound hbalanced.finishedOnce
  have htotal := hbalanced.total
  refine ⟨by omega, hpeak, ?_⟩
  intro hn
  obtain ⟨hallocated, hkept⟩ := hexact hn
  refine ⟨hallocated, by omega, ?_⟩
  intro c hc
  -- No context was kept, so nobody who ended has one.
  have hnone := List.countP_eq_zero.mp hkept c hc
  exact Option.not_isSome_iff_eq_none.mp hnone

/-- One coroutine needs one context beside the main one. -/
theorem peak_pooled_resumed : ∃ t n, Peak [.createCoroutine 1, .resume 1] t n ∧ Pooled t n := by
  have hfree : initial.coroutines 1 = none := coroutines_initial 1 (by decide)
  have hcreated := createCoroutine_sound initial initial_sound 1 hfree
  have hfields : (initial.createCoroutine 1).coroutines 1 = some ⟨0, none⟩ :=
    createCoroutine_fields initial 1
  have hcStack : 1 ∉ (initial.createCoroutine 1).env.cStack := by
    unfold createCoroutine setFields initial
    decide
  obtain ⟨t, hresume, -⟩ := resume_spec _ hcreated 1 _ hfields (by decide) hcStack
  have hpeak : Peak [.createCoroutine 1, .resume 1] t _ :=
    .step [.createCoroutine 1] _ t _ _ (.step [] initial _ _ 0 .initial ⟨hfree, none, rfl⟩)
      ⟨⟨Option.isSome_iff_exists.mpr ⟨_, hfields⟩, hcStack⟩, none, hresume⟩
  exact ⟨t, _, hpeak, peak_pooled _ t _ hpeak⟩

end Thread

end Co
