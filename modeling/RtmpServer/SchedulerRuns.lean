import RtmpServer.Scheduler

/-!
# What holds of every run of the threads

`Scheduler` says of one step what it does; here is what follows for all runs from
`st_init`, in any order of calls. The queues stay sound and every call gets
through (`run_sound`). The run queue is a line (`run_inLine`): as long as a thread
in it has not run, only those run that stood before it. A turn of the idle thread
wakes up all whose time has come, in the order of their times (`run_turn`), and
all of them run before its next turn (`run_round`). No wait ends before its time
unless it was interrupted or I/O came (`run_waits`), a poll returns what was
reported for it, and -1 exactly if it was interrupted (`run_polled`), and the event
system waits for I/O until the first timeout is over, as long as that time fits the
`int` it is cast to (`run_timeval`).
-/

namespace RtmpServer.Sched

variable {Tid : Type} [DecidableEq Tid]

/-- A step that the thread that runs may take, whichever it is. -/
def Vp.Step (vp vp' : Vp Tid) : Prop := ∃ act, vp.Allows act ∧ vp.step act = some vp'

/-- What `st_init` and any steps after it lead to, by whatever thread at whatever time. -/
def Vp.Reached (vp : Vp Tid) : Prop :=
  ∃ idleThread primordial now, idleThread ≠ primordial ∧
    Relation.ReflTransGen Vp.Step (Vp.init idleThread primordial now) vp

section

variable {vp vp' vp₁ vp₂ : Vp Tid} {me t : Tid} {run : List (Vp Tid)}

/-- `st_init` itself reaches its own state. -/
theorem init_reached {idleThread primordial : Tid} (hne : idleThread ≠ primordial) (now : Nat) :
    (Vp.init idleThread primordial now).Reached :=
  ⟨idleThread, primordial, now, hne, .refl⟩

/-- One step more from a reached state reaches a state. -/
theorem Vp.Reached.step (h : vp.Reached) (act : Act Tid) (hallows : vp.Allows act)
    (hstep : vp.step act = some vp') : vp'.Reached := by
  obtain ⟨idleThread, primordial, now, hne, hrun⟩ := h
  exact ⟨idleThread, primordial, now, hne, hrun.tail ⟨act, hallows, hstep⟩⟩

/-- And so do some steps more. -/
theorem Vp.Reached.steps {acts : List (Act Tid)} (h : vp.Reached)
    (hrun : vp.steps acts = some vp') : vp'.Reached := by
  induction acts generalizing vp with
  | nil =>
    cases hrun
    exact h
  | cons act acts ih =>
    rw [Vp.steps] at hrun
    by_cases hallows : vp.Allows act
    · rw [if_pos hallows] at hrun
      obtain ⟨vp₁, hstep, hrun⟩ := Option.bind_eq_some_iff.mp hrun
      exact ih (h.step act hallows hstep) hrun
    · rw [if_neg hallows] at hrun
      cases hrun

/-- Three threads, as the process starts them: the first polls with a timeout of 9,
the second sleeps until 5, and the third until 2. -/
def busyActs : List (Act Nat) := [.create 2, .create 3, .poll true 9, .usleep 5, .usleep 2]

/-- The state in which all three wait is a reached one. -/
theorem busy_reached {vp : Vp Nat} (hrun : (Vp.init 0 1 0).steps busyActs = some vp) :
    vp.Reached :=
  (init_reached (show (0 : Nat) ≠ 1 by decide) 0).steps hrun

/-- Any thread but 0 is another one than the idle thread there, so its steps are allowed. -/
theorem busy_allows {vp : Vp Nat} {t : Nat} (h : vp.thisThread = t ∧ vp.idleThread = 0)
    (ht : t ≠ 0) : vp.thisThread ≠ vp.idleThread := by
  rw [h.1, h.2]
  exact ht

/-- The state that `st_init` leaves is sound: one thread runs, nobody stands in line, and
the heap is empty. -/
theorem init_sound {idleThread primordial : Tid} (hne : idleThread ≠ primordial) (now : Nat) :
    Sound (Vp.init idleThread primordial now) := by
  have hother : ∀ t, t ≠ primordial → (Vp.init idleThread primordial now).state t = .runnable := by
    intro t ht
    show Function.update (fun _ => ThreadState.runnable) primordial .running t = .runnable
    rw [Function.update_of_ne ht]
  have hself : (Vp.init idleThread primordial now).state primordial = .running := by
    show Function.update (fun _ => ThreadState.runnable) primordial .running primordial = .running
    rw [Function.update_self]
  have hidle : (Vp.init idleThread primordial now).context idleThread = .idle := by
    show Function.update (fun _ => Context.main) idleThread .idle idleThread = .idle
    rw [Function.update_self]
  have hthreads : ∀ t, t ∈ (Vp.init idleThread primordial now).threadq ↔
      t = idleThread ∨ t = primordial := by
    intro t
    show t ∈ [idleThread, primordial] ↔ _
    rw [List.mem_cons, List.mem_singleton]
  -- the primordial thread runs and the idle thread is kept off the run queue
  have hqueued : Queued (Vp.init idleThread primordial now) := {
    heap := by
      have hnobody : {t | (Vp.init idleThread primordial now).onSleepq t = true} = ∅ :=
        Set.eq_empty_of_forall_notMem fun t ht => Bool.false_ne_true ht
      rw [hnobody]
      exact holds_empty idleThread rfl rfl
    asleep := fun t ht => absurd ht Bool.false_ne_true
    waits := fun t ht hrun hrunnable => by
      rcases (hthreads t).mp ht with rfl | rfl
      · exact absurd (hother _ hne) hrunnable
      · exact absurd hself hrun
    runnable := fun t => by
      refine ⟨fun ht => absurd ht List.not_mem_nil, fun ht => ?_⟩
      rcases (hthreads t).mp ht.1 with rfl | rfl
      · exact absurd rfl ht.2.1
      · exact absurd (hself.symm.trans ht.2.2) (by decide)
    runq := List.nodup_nil
    polling := fun t ht => absurd ht List.not_mem_nil
    ioq := List.nodup_nil
    threadq := by
      show [idleThread, primordial].Nodup
      rw [List.nodup_cons, List.mem_singleton]
      exact ⟨hne, List.nodup_singleton _⟩
    active := rfl
    idle := ⟨(hthreads _).mpr (Or.inl rfl), hidle⟩
    idleState := Or.inr (hother _ hne)
    onTime := fun t ht => absurd ht List.not_mem_nil
    found := fun t ht => absurd ht List.not_mem_nil }
  refine ⟨hqueued, (hthreads _).mpr (Or.inr rfl), fun t ht => ?_, fun _ => rfl⟩
  rcases (hthreads t).mp ht with rfl | rfl
  · rw [hother _ hne]
    exact iff_of_false (by decide) hne
  · exact iff_of_true hself rfl

/-- A step leads from a sound state to a sound one, and the line goes on by it. -/
theorem Sound.next (h : Sound vp) (hstep : vp.Step vp') :
    Sound vp' ∧ ∃ woken, vp.Goes vp' woken := by
  obtain ⟨act, hallows, hstep⟩ := hstep
  obtain ⟨vp₁, woken, hrun, hsound, hgoes, -⟩ := h.step hallows
  cases Option.some.inj (hrun.symm.trans hstep)
  exact ⟨hsound, woken, hgoes⟩

/-- Every reached state is sound: by induction over the steps. -/
theorem Vp.Reached.sound (h : vp.Reached) : Sound vp := by
  obtain ⟨idleThread, primordial, now, hne, hrun⟩ := h
  induction hrun with
  | refl => exact init_sound hne now
  | tail _ hstep ih => exact (ih.next hstep).1

/-- So is every later state of a run that begins in a sound one. -/
theorem Sound.later (h : Sound vp) (hchain : List.IsChain Vp.Step (vp :: run)) :
    ∀ vp' ∈ run, Sound vp' := by
  induction run generalizing vp with
  | nil =>
    intro vp' hin
    cases hin
  | cons vp₁ run ih =>
    intro vp' hin
    obtain ⟨hstep, hchain⟩ := List.isChain_cons_cons.mp hchain
    have hsound := (h.next hstep).1
    rcases List.mem_cons.mp hin with rfl | hin
    · exact hsound
    · exact ih hsound hchain vp' hin

/-- Whatever the threads have called, the queues are sound, and every call that
the thread that runs may make gets through. -/
theorem run_sound (h : vp.Reached) : Sound vp ∧ ∀ act, vp.Allows act → (vp.step act).isSome := by
  refine ⟨h.sound, fun act hallows => ?_⟩
  obtain ⟨vp', woken, hrun, -⟩ := h.sound.step hallows
  rw [hrun]
  rfl

theorem run_sound_busy : ∃ vp, (Vp.init 0 1 0).steps busyActs = some vp ∧ Sound vp ∧
    ∀ act, vp.Allows act → (vp.step act).isSome := by
  obtain ⟨vp, hrun⟩ : ∃ vp, (Vp.init 0 1 0).steps busyActs = some vp := ⟨_, rfl⟩
  exact ⟨vp, hrun, run_sound (busy_reached hrun)⟩

/-! ## The line -/

/-- As long as `t` has not run, it stands in the line, and only those run that
stood before it. -/
theorem Sound.inLine (run : List (Vp Tid)) : ∀ {vp : Vp Tid} {xs ys : List Tid}, Sound vp →
    vp.runq = xs ++ t :: ys → List.IsChain Vp.Step (vp :: run) →
    (∀ vp' ∈ run, vp'.thisThread ≠ t) → ∀ vp' ∈ run, vp'.thisThread ∈ vp.thisThread :: xs ∧
      t ∈ vp'.runq := by
  induction run with
  | nil =>
    intro vp xs ys _ _ _ _ vp' hvp'
    cases hvp'
  | cons vp₁ run ih =>
    intro vp xs ys h hrunq hchain hnot vp' hvp'
    obtain ⟨hstep, hchain⟩ := List.isChain_cons_cons.mp hchain
    obtain ⟨hsound, woken, hgoes⟩ := h.next hstep
    obtain ⟨xs₁, hxs, hthis, hrunq₁⟩ : ∃ xs₁, (∀ u ∈ xs₁, u ∈ xs) ∧
        vp₁.thisThread ∈ vp.thisThread :: xs ∧ vp₁.runq = xs₁ ++ t :: (ys ++ woken) := by
      have hline := hgoes.line
      -- the run queue and the threads that the step wakes, with `t` between its two parts
      rw [hrunq, List.append_assoc, List.cons_append] at hline
      rcases hline with ⟨hthis, hline⟩ | hline | ⟨hline, -⟩
      · -- the step was an act that does not switch: the same thread goes on
        exact ⟨xs, fun _ hu => hu, hthis ▸ .head _, hline⟩
      · -- the first of the line runs next, which is one of `xs`, as it is not `t`
        cases xs with
        | nil => exact absurd (List.cons.inj hline).1 (hnot vp₁ (.head _))
        | cons x xs =>
          obtain ⟨hthis, hline⟩ := List.cons.inj hline
          exact ⟨xs, fun u hu => .tail _ hu, .tail _ (hthis ▸ .head _), hline⟩
      · exact absurd hline (by simp)
    rcases List.mem_cons.mp hvp' with rfl | hvp'
    · exact ⟨hthis, by rw [hrunq₁]; simp⟩
    · obtain ⟨hin, ht⟩ := ih hsound hrunq₁ hchain (fun w hw => hnot w (.tail _ hw)) vp' hvp'
      refine ⟨?_, ht⟩
      rcases List.mem_cons.mp hin with heq | hin
      · rw [heq]
        exact hthis
      · exact .tail _ (hxs _ hin)

/-- Nobody is overtaken: as long as `t` has not run, only those run that stood
before it in the line. -/
theorem run_inLine (h : vp.Reached) {xs ys : List Tid} (hrunq : vp.runq = xs ++ t :: ys)
    (hchain : List.IsChain Vp.Step (vp :: run)) (hnot : ∀ vp' ∈ run, vp'.thisThread ≠ t) :
    ∀ vp' ∈ run, vp'.thisThread ∈ vp.thisThread :: xs ∧ t ∈ vp'.runq :=
  h.sound.inLine run hrunq hchain hnot

theorem run_inLine_created : ∃ vp : Vp Nat,
    (((Vp.init 0 1 0).create 2).create 3).step (.usleep 5) = some vp ∧
      vp.thisThread ∈ [1, 2] ∧ 3 ∈ vp.runq := by
  have hcreated : (((Vp.init 0 1 0).create 2).create 3).Reached :=
    ((init_reached (show (0 : Nat) ≠ 1 by decide) 0).step (.create 2) ⟨by decide, by decide⟩
      rfl).step (.create 3) ⟨by decide, by decide⟩ rfl
  obtain ⟨vp, hstep, hthis⟩ : ∃ vp : Vp Nat,
      (((Vp.init 0 1 0).create 2).create 3).step (.usleep 5) = some vp ∧ vp.thisThread = 2 :=
    ⟨_, rfl, rfl⟩
  have hchain : List.IsChain Vp.Step [((Vp.init 0 1 0).create 2).create 3, vp] :=
    List.isChain_cons_cons.mpr ⟨⟨.usleep 5, show (1 : Nat) ≠ 0 by decide, hstep⟩, .singleton _⟩
  refine ⟨vp, hstep, run_inLine hcreated (show _ = [2] ++ 3 :: [] from rfl) hchain ?_ vp (.head _)⟩
  intro vp' hin
  rw [List.mem_singleton.mp hin, hthis]
  decide

/-- Who stands in the line has run when the idle thread runs: the line goes on from step to
step, and the idle thread comes only when it is empty. -/
theorem Sound.ran (h : Sound vp) (ht : t ∈ vp.runq) (hchain : List.IsChain Vp.Step (vp :: run))
    (hlast : vp' ∈ run) (hidle : vp'.thisThread = vp'.idleThread) :
    ∃ w ∈ run, w.thisThread = t := by
  by_contra hnot
  obtain ⟨xs, ys, hrunq⟩ := List.append_of_mem ht
  have hin := (h.inLine run hrunq hchain (fun w hw heq => hnot ⟨w, hw, heq⟩) vp' hlast).2
  rw [(h.later hchain vp' hlast).idleRuns hidle] at hin
  cases hin

/-! ## The turns of the idle thread -/

/-- In a turn of the idle thread those come on the run queue who are ready, as they
stand in the I/O queue, and behind them those whose time has come, the first due
first; all others who have a timeout wait on. -/
theorem run_turn (h : vp.Reached) (hidle : vp.thisThread = vp.idleThread) (fires : Tid → Nat)
    (now : Nat) : ∃ vp' late, vp.step (.turn fires now) = some vp' ∧
      (vp'.thisThread :: vp'.runq = (vp.ioq.filter fun t => fires t ≠ 0) ++ late ∨
        (vp.ioq.filter fun t => fires t ≠ 0) ++ late = [] ∧ vp'.runq = [] ∧
          vp'.thisThread = vp'.idleThread) ∧
      late.Pairwise (fun t u => vp.sleepq.due t ≤ vp.sleepq.due u) ∧
      (∀ t, t ∈ late ↔ vp.onSleepq t = true ∧ ¬ (t ∈ vp.ioq ∧ fires t ≠ 0) ∧
        vp.sleepq.due t ≤ now) ∧
      ∀ t, vp'.onSleepq t = true ↔ vp.onSleepq t = true ∧ ¬ (t ∈ vp.ioq ∧ fires t ≠ 0) ∧
        now < vp.sleepq.due t := by
  have hsound := h.sound
  obtain ⟨vp', late, hrun, hsound', hgoes, -, hsorted, hlate, hon, -⟩ :=
    hsound.idleTurn hidle fires now
  refine ⟨vp', late, hrun, ?_, hsorted, hlate, hon⟩
  have hline := hgoes.line
  rw [hsound.idleRuns hidle, List.nil_append] at hline
  rcases hline with ⟨hthis, hline⟩ | hline | hline
  · -- if the idle thread goes on, nobody is in the line
    have hidle' : vp'.thisThread = vp'.idleThread := hthis.trans (hidle.trans hgoes.idleThread.symm)
    have hnil := hsound'.idleRuns hidle'
    exact Or.inr ⟨hline.symm.trans hnil, hnil, hidle'⟩
  · exact Or.inl hline
  · exact Or.inr hline

/-- At 4 the first is ready and the third has slept enough; the second sleeps on. -/
theorem run_turn_busy : ∃ vp, (Vp.init 0 1 0).steps busyActs = some vp ∧
    ∃ vp' late, vp.step (.turn (fun t => if t = 1 then 2 else 0) 4) = some vp' ∧
      (vp'.thisThread :: vp'.runq = [1] ++ late ∨ [1] ++ late = [] ∧ vp'.runq = [] ∧
        vp'.thisThread = vp'.idleThread) ∧
      late.Pairwise (fun t u => vp.sleepq.due t ≤ vp.sleepq.due u) ∧
      (3 ∈ late ∧ 1 ∉ late ∧ 2 ∉ late) ∧ vp'.onSleepq 2 = true := by
  obtain ⟨vp, hrun, hidle, hioq, hasleep, hdue⟩ :
      ∃ vp, (Vp.init 0 1 0).steps busyActs = some vp ∧ vp.thisThread = vp.idleThread ∧
        vp.ioq = [1] ∧ (vp.onSleepq 2 = true ∧ vp.onSleepq 3 = true) ∧
        vp.sleepq.due 2 = 5 ∧ vp.sleepq.due 3 = 2 := ⟨_, rfl, rfl, rfl, ⟨rfl, rfl⟩, rfl, rfl⟩
  obtain ⟨vp', late, hstep, hline, hsorted, hlate, hon⟩ :=
    run_turn (busy_reached hrun) hidle (fun t => if t = 1 then 2 else 0) 4
  rw [hioq] at hline hlate hon
  exact ⟨vp, hrun, vp', late, hstep, hline, hsorted,
    ⟨(hlate 3).mpr ⟨hasleep.2, by decide, by omega⟩, fun h => ((hlate 1).mp h).2.1 (by decide),
      fun h => absurd ((hlate 2).mp h).2.2 (by omega)⟩,
    (hon 2).mpr ⟨hasleep.1, by decide, by omega⟩⟩

/-- Between two turns of the idle thread all those run who were woken up in the
first of them. -/
theorem Sound.round (h : Sound vp) (hidle : vp.thisThread = vp.idleThread) {fires : Tid → Nat}
    {now : Nat} (hturn : vp.step (.turn fires now) = some vp₁)
    (hchain : List.IsChain Vp.Step (vp₁ :: run)) (hin : vp' ∈ vp₁ :: run)
    (hidle' : vp'.thisThread = vp'.idleThread)
    (ht : t ∈ vp.ioq ∧ fires t ≠ 0 ∨ vp.onSleepq t = true ∧ vp.sleepq.due t ≤ now) :
    ∃ w ∈ vp₁ :: run, w.thisThread = t := by
  -- the turn puts everybody who is woken into the line
  obtain ⟨vp₁', late, hrun, hsound, hgoes, -, -, hlate, -⟩ := h.idleTurn hidle fires now
  cases Option.some.inj (hrun.symm.trans hturn)
  have hwoken : t ∈ (vp.ioq.filter fun t => fires t ≠ 0) ++ late := by
    rw [List.mem_append, List.mem_filter, decide_eq_true_iff, hlate t]
    by_cases hfired : t ∈ vp.ioq ∧ fires t ≠ 0
    · exact Or.inl hfired
    · exact Or.inr ⟨(ht.resolve_left hfired).1, hfired, (ht.resolve_left hfired).2⟩
  have hline := hgoes.line
  rw [h.idleRuns hidle, List.nil_append] at hline
  -- who is woken up runs at once or stands in the line
  have hstands : vp₁.thisThread = t ∨ t ∈ vp₁.runq := by
    rcases hline with ⟨-, hline⟩ | hline | ⟨hline, -⟩
    · exact Or.inr (hline ▸ hwoken)
    · rw [← hline, List.mem_cons] at hwoken
      exact hwoken.imp_left Eq.symm
    · rw [hline] at hwoken
      cases hwoken
  rcases hstands with hthis | hrunq
  · exact ⟨vp₁, .head _, hthis⟩
  · rcases List.mem_cons.mp hin with heq | hin
    · rw [hsound.idleRuns (heq ▸ hidle')] at hrunq
      cases hrunq
    · obtain ⟨w, hw, hthis⟩ := hsound.ran hrunq hchain hin hidle'
      exact ⟨w, .tail _ hw, hthis⟩

/-- Nobody waits for a second turn: whoever is found ready or late in a turn of the
idle thread has run before its next one, whatever the threads that run meanwhile
do, also if they wake up or create others. -/
theorem run_round (h : vp.Reached) (hidle : vp.thisThread = vp.idleThread) {fires : Tid → Nat}
    {now : Nat} (hturn : vp.step (.turn fires now) = some vp₁)
    (hchain : List.IsChain Vp.Step (vp₁ :: run)) (hin : vp' ∈ vp₁ :: run)
    (hidle' : vp'.thisThread = vp'.idleThread)
    (ht : t ∈ vp.ioq ∧ fires t ≠ 0 ∨ vp.onSleepq t = true ∧ vp.sleepq.due t ≤ now) :
    ∃ w ∈ vp₁ :: run, w.thisThread = t :=
  -- one turn, and the line it leaves: nobody in it can be passed before the next
  h.sound.round hidle hturn hchain hin hidle' ht

/-- The third has run when the idle thread comes again; the first, which was ready,
has slept in between. -/
theorem run_round_busy : ∃ vp vp₁ vp₂ vp₃ : Vp Nat, (Vp.init 0 1 0).steps busyActs = some vp ∧
    vp.step (.turn (fun t => if t = 1 then 2 else 0) 4) = some vp₁ ∧
    vp₁.step (.usleep 100) = some vp₂ ∧ vp₂.step (.poll true 50) = some vp₃ ∧
    ∃ w ∈ [vp₁, vp₂, vp₃], w.thisThread = 3 := by
  obtain ⟨vp, vp₁, vp₂, vp₃, hrun, hturn, hfirst, hthird, hidle, hthis₁, hthis₂,
      hidle₃, hon, hdue⟩ :
      ∃ vp vp₁ vp₂ vp₃ : Vp Nat, (Vp.init 0 1 0).steps busyActs = some vp ∧
        vp.step (.turn (fun t => if t = 1 then 2 else 0) 4) = some vp₁ ∧
        vp₁.step (.usleep 100) = some vp₂ ∧ vp₂.step (.poll true 50) = some vp₃ ∧
        vp.thisThread = vp.idleThread ∧ vp₁.thisThread ≠ vp₁.idleThread ∧
        vp₂.thisThread ≠ vp₂.idleThread ∧ vp₃.thisThread = vp₃.idleThread ∧
        vp.onSleepq 3 = true ∧ vp.sleepq.due 3 ≤ 4 :=
    ⟨_, _, _, _, rfl, rfl, rfl, rfl, rfl, show (1 : Nat) ≠ 0 by decide,
      show (3 : Nat) ≠ 0 by decide, rfl, rfl, show (2 : Nat) ≤ 4 by decide⟩
  have hchain : List.IsChain Vp.Step [vp₁, vp₂, vp₃] :=
    List.isChain_cons_cons.mpr ⟨⟨.usleep 100, hthis₁, hfirst⟩,
      List.isChain_cons_cons.mpr ⟨⟨.poll true 50, hthis₂, hthird⟩, .singleton _⟩⟩
  exact ⟨vp, vp₁, vp₂, vp₃, hrun, hturn, hfirst, hthird,
    run_round (busy_reached hrun) hidle hturn hchain (.tail _ (.tail _ (.head _))) hidle₃
      (Or.inr ⟨hon, hdue⟩)⟩

/-! ## The waits -/

omit [DecidableEq Tid] in
/-- Who waits and does not run waits on, with the same time. -/
theorem Vp.Awaits.next {due : Nat} {woken : List Tid} (h : vp.Awaits me due)
    (hgoes : vp.Goes vp' woken) (hnot : vp'.thisThread ≠ me) : vp'.Awaits me due := by
  obtain ⟨hth, hctx, hdue⟩ := hgoes.others me h.threadq h.this.symm
  refine ⟨hnot, hth, ?_, hdue.trans h.due⟩
  rw [hctx]
  exact h.context

/-- A wait that ends with 0 has had its time: by induction over the steps in which the
thread does not run. -/
theorem Sound.awaited {due : Nat} (hback : vp₂.thisThread = me) (hrv : vp₂.rv me = 0)
    (mid : List (Vp Tid)) : ∀ {vp : Vp Tid}, Sound vp → vp.Awaits me due →
    List.IsChain Vp.Step (vp :: (mid ++ [vp₂])) → (∀ w ∈ mid, w.thisThread ≠ me) →
    due ≤ vp₂.lastClock := by
  induction mid with
  | nil =>
    -- the step that brings the thread back: it hands over with 0 only when the time is over
    intro vp h hawaits hchain _
    obtain ⟨-, woken, hgoes⟩ := h.next (List.isChain_cons_cons.mp hchain).1
    obtain ⟨-, hctx, hdue⟩ := hgoes.others me hawaits.threadq hawaits.this.symm
    have hearly := hgoes.notEarly (hback ▸ hawaits.this.symm)
    rw [hback, hctx, hdue, hawaits.due] at hearly
    exact hearly hawaits.context hrv
  | cons vp₁ mid ih =>
    -- a step of another: the thread still waits, with the same due time
    intro vp h hawaits hchain hnot
    obtain ⟨hstep, hchain⟩ := List.isChain_cons_cons.mp hchain
    obtain ⟨hsound, woken, hgoes⟩ := h.next hstep
    exact ih hsound (hawaits.next hgoes (hnot vp₁ (.head _))) hchain fun w hw => hnot w (.tail _ hw)

/-- A thread that sleeps or polls with a timeout comes back with 0 only when the
timeout is over, whatever the others do meanwhile. -/
theorem run_waits (h : vp.Reached) (hidle : vp.thisThread ≠ vp.idleThread) {usecs : Nat}
    {act : Act Tid} (hact : act = .usleep usecs ∨ act = .poll true usecs)
    (htime : usecs ≠ noTimeout)
    (hint : vp.interrupt vp.thisThread = false) (hstep : vp.step act = some vp₁)
    (mid : List (Vp Tid)) (hchain : List.IsChain Vp.Step (vp₁ :: (mid ++ [vp₂])))
    (hmid : ∀ w ∈ mid, w.thisThread ≠ vp.thisThread) (hback : vp₂.thisThread = vp.thisThread)
    (hrv : vp₂.rv vp.thisThread = 0) : (vp.lastClock + usecs) % 2 ^ 64 ≤ vp₂.lastClock := by
  obtain ⟨hsound, hawaits⟩ : Sound vp₁ ∧
      vp₁.Awaits vp.thisThread ((vp.lastClock + usecs) % 2 ^ 64) := by
    rcases hact with rfl | rfl
    · obtain ⟨vp', hrun, hsound, -, -, hawaits⟩ := h.sound.usleep hidle usecs
      cases Option.some.inj (hrun.symm.trans hstep)
      exact ⟨hsound, hawaits hint htime⟩
    · obtain ⟨vp', hrun, hsound, -, -, hawaits⟩ := h.sound.poll hidle true usecs
      cases Option.some.inj (hrun.symm.trans hstep)
      exact ⟨hsound, (hawaits hint rfl).2 htime⟩
  exact hsound.awaited hback hrv mid hawaits hchain hmid

/-- The second sleeps until 5: meanwhile the third goes to sleep, the first is found
ready and sleeps again, and so does the third when it is late. -/
theorem run_waits_busy : ∃ vp vp₁ vp₂ vp₃ vp₄ vp₅ vp₆ : Vp Nat,
    (Vp.init 0 1 0).steps [.create 2, .create 3, .poll true 9] = some vp ∧
    vp.step (.usleep 5) = some vp₁ ∧ vp₁.step (.usleep 2) = some vp₂ ∧
    vp₂.step (.turn (fun t => if t = 1 then 2 else 0) 4) = some vp₃ ∧
    vp₃.step (.usleep 100) = some vp₄ ∧ vp₄.step (.poll true 50) = some vp₅ ∧
    vp₅.step (.turn (fun _ => 0) 7) = some vp₆ ∧ vp₆.thisThread = 2 ∧
    (0 + 5) % 2 ^ 64 ≤ vp₆.lastClock := by
  obtain ⟨vp, vp₁, vp₂, vp₃, vp₄, vp₅, vp₆, hrun, h1, h2, h3, h4, h5, h6, hvp, hvp₁,
    hvp₂, hvp₃, hvp₄,
      hvp₅, hvp₆⟩ : ∃ vp vp₁ vp₂ vp₃ vp₄ vp₅ vp₆ : Vp Nat,
        (Vp.init 0 1 0).steps [.create 2, .create 3, .poll true 9] = some vp ∧
        vp.step (.usleep 5) = some vp₁ ∧ vp₁.step (.usleep 2) = some vp₂ ∧
        vp₂.step (.turn (fun t => if t = 1 then 2 else 0) 4) = some vp₃ ∧
        vp₃.step (.usleep 100) = some vp₄ ∧ vp₄.step (.poll true 50) = some vp₅ ∧
        vp₅.step (.turn (fun _ => 0) 7) = some vp₆ ∧
        (vp.thisThread = 2 ∧ vp.idleThread = 0 ∧ vp.lastClock = 0 ∧ vp.interrupt 2 = false) ∧
        (vp₁.thisThread = 3 ∧ vp₁.idleThread = 0) ∧
        (vp₂.thisThread = 0 ∧ vp₂.idleThread = 0 ∧ 0 < vp₂.activeCount) ∧
        (vp₃.thisThread = 1 ∧ vp₃.idleThread = 0) ∧ (vp₄.thisThread = 3 ∧ vp₄.idleThread = 0) ∧
        (vp₅.thisThread = 0 ∧ vp₅.idleThread = 0 ∧ 0 < vp₅.activeCount) ∧
        vp₆.thisThread = 2 ∧ vp₆.rv 2 = 0 :=
    ⟨_, _, _, _, _, _, _, rfl, rfl, rfl, rfl, rfl, rfl, rfl, ⟨rfl, rfl, rfl, rfl⟩, ⟨rfl, rfl⟩,
      ⟨rfl, rfl, Nat.succ_pos _⟩, ⟨rfl, rfl⟩, ⟨rfl, rfl⟩, ⟨rfl, rfl, Nat.succ_pos _⟩, rfl, rfl⟩
  have hchain : List.IsChain Vp.Step (vp₁ :: ([vp₂, vp₃, vp₄, vp₅] ++ [vp₆])) :=
    List.isChain_cons_cons.mpr ⟨⟨.usleep 2, busy_allows hvp₁ (by decide), h2⟩,
      List.isChain_cons_cons.mpr ⟨⟨.turn _ 4, ⟨hvp₂.1.trans hvp₂.2.1.symm, hvp₂.2.2⟩, h3⟩,
        List.isChain_cons_cons.mpr ⟨⟨.usleep 100, busy_allows hvp₃ (by decide), h4⟩,
          List.isChain_cons_cons.mpr ⟨⟨.poll true 50, busy_allows hvp₄ (by decide), h5⟩,
            List.isChain_cons_cons.mpr ⟨⟨.turn _ 7, ⟨hvp₅.1.trans hvp₅.2.1.symm, hvp₅.2.2⟩, h6⟩,
              .singleton _⟩⟩⟩⟩⟩
  -- the clock stands at 0 when the second goes to sleep
  obtain ⟨hthis, hidle, hclock, hint⟩ := hvp
  have hmid : ∀ w ∈ [vp₂, vp₃, vp₄, vp₅], w.thisThread ≠ vp.thisThread := by
    simp [hthis, hvp₂.1, hvp₃.1, hvp₄.1, hvp₅.1]
  have hwaits := run_waits ((init_reached (show (0 : Nat) ≠ 1 by decide) 0).steps hrun)
    (busy_allows ⟨hthis, hidle⟩ (by decide)) (Or.inl rfl) (by decide) (hthis ▸ hint) h1
      [vp₂, vp₃, vp₄, vp₅]
    hchain hmid (hvp₆.1.trans hthis.symm) (hthis ▸ hvp₆.2)
  rw [hclock] at hwaits
  exact ⟨vp, vp₁, vp₂, vp₃, vp₄, vp₅, vp₆, hrun, h1, h2, h3, h4, h5, h6, hvp₆.1, hwaits⟩

/-! ## What a poll returns -/

/-- Only others than `me` run before each of these steps; who runs behind the last one is
left open. -/
inductive Vp.Without (me : Tid) : Vp Tid → List (Act Tid) → Vp Tid → Prop
  | nil (vp : Vp Tid) : Vp.Without me vp [] vp
  | cons {vp vp₁ vp' : Vp Tid} {act : Act Tid} {acts : List (Act Tid)} : vp.thisThread ≠ me →
    vp.Allows act → vp.step act = some vp₁ → Vp.Without me vp₁ acts vp' →
    Vp.Without me vp (act :: acts) vp'

/-- How many of `me`'s descriptors the first turn reports that reports any; 0 if none does. -/
def reported (me : Tid) : List (Act Tid) → Nat
  | [] => 0
  | .turn fires _ :: acts => if fires me = 0 then reported me acts else fires me
  | _ :: acts => reported me acts

/-- What `me` is going to be told: what was reported when it came off the I/O queue,
or what will be. -/
def Vp.told (vp : Vp Tid) (me : Tid) (acts : List (Act Tid)) : Nat :=
  if me ∈ vp.ioq then reported me acts else vp.ready me

/-- What `me` is going to be told, by the I/O queue and the counts at the next switch. -/
theorem told_at (hne : vp.thisThread ≠ me) (act : Act Tid) (acts : List (Act Tid)) :
    vp.told me (act :: acts)
      = if me ∈ vp.ioqAt act then reported me acts else vp.readyAt act me := by
  unfold Vp.told
  cases act with
  | poll added timeout =>
    -- a poll adds only the thread that polls, which is not `me`
    have hin : me ∈ vp.ioqAt (.poll added timeout) ↔ me ∈ vp.ioq := by
      show me ∈ (if _ then vp.ioq else vp.ioq ++ [vp.thisThread]) ↔ _
      split
      · exact Iff.rfl
      · rw [List.mem_append, List.mem_singleton, or_iff_left hne.symm]
    exact if_congr hin.symm rfl rfl
  | turn fires now =>
    -- a turn counts the ready descriptors and takes the thread off the queue at once
    have hin : me ∈ vp.ioqAt (.turn fires now) ↔ me ∈ vp.ioq ∧ fires me = 0 := by
      show me ∈ vp.ioq.filter (fun t => fires t = 0) ↔ _
      rw [List.mem_filter, decide_eq_true_iff]
    have hready : vp.readyAt (.turn fires now) me
        = if me ∈ vp.ioq ∧ fires me ≠ 0 then fires me else vp.ready me := rfl
    rw [hready]
    by_cases hioq : me ∈ vp.ioq
    · by_cases hzero : fires me = 0
      · rw [if_pos hioq, if_pos (hin.mpr ⟨hioq, hzero⟩), reported, if_pos hzero]
      · rw [if_pos hioq, if_neg (fun h => hzero (hin.mp h).2), if_pos ⟨hioq, hzero⟩, reported,
          if_neg hzero]
    · rw [if_neg hioq, if_neg (fun h => hioq (hin.mp h).1), if_neg fun h => hioq h.1]
  | _ => rfl

/-- Whether `me` has been interrupted when it runs again: it is marked already, or one of the
steps is its interrupt. -/
def Vp.Interrupted (vp : Vp Tid) (me : Tid) (acts : List (Act Tid)) : Prop :=
  vp.interrupt me = true ∨ Act.interrupt me ∈ acts

/-- The mark is set by the interrupt of this thread only, and kept until the thread runs. -/
theorem interrupted_cons {act : Act Tid} {acts : List (Act Tid)} :
    vp.Interrupted me (act :: acts) ↔
      vp.interruptAt act me = true ∨ Act.interrupt me ∈ acts := by
  unfold Vp.Interrupted
  rw [List.mem_cons, ← or_assoc]
  refine or_congr_left ?_
  cases act with
  | interrupt t =>
    show _ ↔ Function.update vp.interrupt t true me = true
    by_cases heq : me = t
    · rw [heq, Function.update_self]
      simp
    · rw [Function.update_of_ne heq]
      simp [heq]
  | _ => exact or_iff_left (fun heq => by cases heq)

/-- A thread that waits in `st_poll` and runs again returns -1 if it has been
interrupted, and otherwise what it was going to be told. -/
theorem Vp.Without.told {acts : List (Act Tid)} (hrun : Vp.Without me vp acts vp')
    (h : Sound vp) (hne : vp.thisThread ≠ me) (hth : me ∈ vp.threadq)
    (hctx : vp.context me = .poll) (hback : vp'.thisThread = me) :
    (vp.Interrupted me acts → vp'.rv me = -1) ∧
      (¬ vp.Interrupted me acts → vp'.rv me = vp.told me acts) := by
  induction hrun with
  | nil => exact absurd hback hne
  | @cons vp vp₁ vp' act acts _ hallows hstep hrest ih =>
    obtain ⟨vp₁', woken, hstep', hsound, hgoes, hpolls⟩ := h.step hallows
    cases Option.some.inj (hstep'.symm.trans hstep)
    obtain ⟨hth₁, hctx₁, -⟩ := hgoes.others me hth hne.symm
    rw [told_at hne, interrupted_cons]
    by_cases hthis : vp₁.thisThread = me
    · -- it is back, and nobody may take a step in between
      cases hrest with
      | nil =>
        have hcounted := hpolls.counted (fun heq => hne (heq.symm.trans hthis))
        rw [hthis, hctx₁, hctx] at hcounted
        have hrv := hcounted rfl
        rw [or_iff_left List.not_mem_nil, hrv]
        refine ⟨fun hmark => if_pos hmark, fun hmark => (if_neg hmark).trans ?_⟩
        split
        · rfl
        · rfl
      | cons hother => exact absurd hthis hother
    · have hmark : vp₁.interrupt me = vp.interruptAt act me :=
        hpolls.interrupt me hth fun heq => hthis heq.symm
      have hsame : vp₁.told me acts
          = if me ∈ vp.ioqAt act then reported me acts else vp.readyAt act me := by
        unfold Vp.told
        rw [hpolls.ready]
        refine if_congr ((hpolls.ioq me).trans (and_iff_left fun heq => hthis heq.symm)) rfl rfl
      rw [← hsame, ← hmark]
      exact ih hsound hthis hth₁ (hctx₁.trans hctx) hback

/-- `st_poll` returns -1 if the thread was interrupted before it ran again, and
otherwise how many of its descriptors were reported ready while it waited, 0 if
none were. -/
theorem run_polled (h : vp.Reached) (hidle : vp.thisThread ≠ vp.idleThread) {timeout : Nat}
    (hint : vp.interrupt vp.thisThread = false)
    (hstep : vp.step (.poll true timeout) = some vp₁) {acts : List (Act Tid)}
    (hrun : Vp.Without vp.thisThread vp₁ acts vp₂) (hback : vp₂.thisThread = vp.thisThread) :
    (Act.interrupt vp.thisThread ∈ acts → vp₂.rv vp.thisThread = -1) ∧
      (Act.interrupt vp.thisThread ∉ acts →
        vp₂.rv vp.thisThread = reported vp.thisThread acts) := by
  obtain ⟨vp', hpoll, hsound, -, hpolls, hwaits⟩ := h.sound.poll hidle true timeout
  obtain rfl := Option.some.inj (hpoll.symm.trans hstep)
  obtain ⟨hne, -⟩ := hwaits hint rfl
  have hqueue : vp.ioqAt (.poll true timeout) = vp.ioq ++ [vp.thisThread] :=
    if_neg (by rw [hint]; decide)
  have hin : vp.thisThread ∈ vp'.ioq :=
    (hpolls.ioq _).mpr ⟨by rw [hqueue]; simp, hne.symm⟩
  obtain ⟨hth, hctx, -⟩ := hsound.queued.polling _ hin
  have htold := hrun.told hsound hne hth hctx hback
  have hmark : vp'.interrupt vp.thisThread ≠ true := by
    rw [hpolls.interrupt _ h.sound.this hne.symm, hint]
    decide
  rw [Vp.told, if_pos hin, Vp.Interrupted, or_iff_right hmark] at htold
  exact htold

/-- The first polls, the others go to sleep, and a turn finds two of its
descriptors ready. -/
theorem run_polled_busy : ∃ vp vp₁ vp₂ : Vp Nat,
    (Vp.init 0 1 0).steps [.create 2, .create 3] = some vp ∧
    vp.step (.poll true 9) = some vp₁ ∧
    vp₁.steps [.usleep 5, .usleep 2, .turn (fun t => if t = 1 then 2 else 0) 4] = some vp₂ ∧
    vp₂.rv 1 = 2 := by
  obtain ⟨vp, vp₁, vp₂, vp₃, vp₄, hrun, h1, h2, h3, h4, hruns, hvp, hvp₁, hvp₂, hvp₃, hvp₄⟩ :
      ∃ vp vp₁ vp₂ vp₃ vp₄ : Vp Nat, (Vp.init 0 1 0).steps [.create 2, .create 3] = some vp ∧
        vp.step (.poll true 9) = some vp₁ ∧ vp₁.step (.usleep 5) = some vp₂ ∧
        vp₂.step (.usleep 2) = some vp₃ ∧
        vp₃.step (.turn (fun t => if t = 1 then 2 else 0) 4) = some vp₄ ∧
        vp₁.steps [.usleep 5, .usleep 2, .turn (fun t => if t = 1 then 2 else 0) 4] = some vp₄ ∧
        (vp.thisThread = 1 ∧ vp.idleThread = 0 ∧ vp.interrupt 1 = false) ∧
        (vp₁.thisThread = 2 ∧ vp₁.idleThread = 0) ∧ (vp₂.thisThread = 3 ∧ vp₂.idleThread = 0) ∧
        (vp₃.thisThread = 0 ∧ vp₃.idleThread = 0 ∧ 0 < vp₃.activeCount) ∧ vp₄.thisThread = 1 :=
    ⟨_, _, _, _, _, rfl, rfl, rfl, rfl, rfl, rfl, ⟨rfl, rfl, rfl⟩, ⟨rfl, rfl⟩, ⟨rfl, rfl⟩,
      ⟨rfl, rfl, Nat.succ_pos _⟩, rfl⟩
  obtain ⟨hthis, hidle, hint⟩ := hvp
  have hne : ∀ {w : Vp Nat} {t u : Nat}, w.thisThread = t → u ≠ t → w.thisThread ≠ u := by
    intro w t u hw hu
    rw [hw]
    exact hu.symm
  have hothers : Vp.Without 1 vp₁ [.usleep 5, .usleep 2, .turn (fun t => if t = 1 then 2 else 0) 4]
      vp₄ :=
    .cons (hne hvp₁.1 (by decide)) (busy_allows hvp₁ (by decide)) h2
      (.cons (hne hvp₂.1 (by decide)) (busy_allows hvp₂ (by decide)) h3
        (.cons (hne hvp₃.1 (by decide)) ⟨hvp₃.1.trans hvp₃.2.1.symm, hvp₃.2.2⟩ h4 (.nil _)))
  rw [← hthis] at hothers hint
  have hpolled := run_polled ((init_reached (show (0 : Nat) ≠ 1 by decide) 0).steps hrun)
    (busy_allows ⟨hthis, hidle⟩ (by decide)) hint h1 hothers (hvp₄.trans hthis.symm)
  rw [hthis] at hpolled
  exact ⟨vp, vp₁, vp₄, hrun, h1, hruns, hpolled.2 (by simp)⟩

/-! ## How long the event system waits -/

/-- `select` with this `timeval` waits until some timeout is over, and no longer
than until the first one is. -/
structure Vp.WaitsFor (vp : Vp Tid) (tv : Int × Int) : Prop where
  normal : 0 ≤ tv.1 ∧ 0 ≤ tv.2 ∧ tv.2 < 1000000
  reaches : ∃ t, vp.onSleepq t = true ∧ (vp.sleepq.due t : Int) ≤
    vp.lastClock + (tv.1 * 1000000 + tv.2)
  first : ∀ t now, vp.onSleepq t = true → vp.lastClock ≤ now → vp.sleepq.due t ≤ now →
    vp.lastClock + (tv.1 * 1000000 + tv.2) ≤ (now : Int)

/-- `select` may wait for ever if and only if nobody has a timeout, and otherwise
until the first one is over, if and only if that is less than 2^31 seconds away:
the cast to `int` loses what is more. -/
theorem run_timeval (h : vp.Reached) :
    (vp.timeval = none ↔ ∀ t, vp.onSleepq t = false) ∧
    ∀ tv, vp.timeval = some tv → (vp.WaitsFor tv ↔
      ∃ t, vp.onSleepq t = true ∧ vp.sleepq.due t < vp.lastClock + 2 ^ 31 * 1000000) := by
  unfold Vp.timeval Vp.minTimeout
  rcases h.sound.queued.heap.root with ⟨hroot, hnobody⟩ | ⟨first, hfirst, hroot, hleast⟩
  · rw [hroot]
    refine ⟨iff_of_true rfl fun t => ?_, fun tv hsome => by cases hsome⟩
    exact Bool.eq_false_iff.mpr fun ht => (Set.eq_empty_iff_forall_notMem.mp hnobody) t ht
  rw [hroot, Option.map_some, Option.map_some]
  refine ⟨iff_of_false (by simp) fun hnone => ?_, fun tv hsome => ?_⟩
  · exact Bool.false_ne_true ((hnone first).symm.trans hfirst)
  have husecs : ∃ usecs, (if vp.sleepq.due first ≤ vp.lastClock then 0
      else vp.sleepq.due first - vp.lastClock) = usecs ∧
      (vp.sleepq.due first ≤ vp.lastClock + usecs) ∧
      (usecs = 0 ∨ vp.lastClock + usecs = vp.sleepq.due first) := by
    refine ⟨_, rfl, ?_, ?_⟩
    · split <;> omega
    · split <;> omega
  obtain ⟨usecs, heq, hover, hnotlonger⟩ := husecs
  rw [heq] at hsome
  rw [← Option.some.inj hsome]
  -- the microseconds always fit
  have husec : castInt (usecs % 1000000) = (usecs % 1000000 : Nat) := castInt_of_lt (by omega)
  constructor
  · rintro ⟨-, ⟨t, ht, hdue⟩, -⟩
    have hsec := castInt_lt (usecs / 1000000)
    dsimp only at hdue
    rw [husec] at hdue
    exact ⟨t, ht, by omega⟩
  · rintro ⟨t, ht, hdue⟩
    have hle : vp.sleepq.due first ≤ vp.sleepq.due t := hleast t ht
    have hsec : castInt (usecs / 1000000) = (usecs / 1000000 : Nat) := castInt_of_lt (by omega)
    rw [hsec, husec]
    refine ⟨⟨by omega, by omega, by dsimp only; omega⟩, ⟨first, hfirst, by dsimp only; omega⟩, ?_⟩
    intro u now hu hclock hover
    have hle : vp.sleepq.due first ≤ vp.sleepq.due u := hleast u hu
    dsimp only
    omega

theorem run_timeval_busy : ∃ vp, (Vp.init 0 1 0).steps busyActs = some vp ∧
    (vp.timeval = none ↔ ∀ t, vp.onSleepq t = false) ∧
    (vp.WaitsFor (0, 2) ↔
      ∃ t, vp.onSleepq t = true ∧ vp.sleepq.due t < vp.lastClock + 2 ^ 31 * 1000000) := by
  obtain ⟨vp, hrun, htv⟩ : ∃ vp, (Vp.init 0 1 0).steps busyActs = some vp ∧
      vp.timeval = some (0, 2) := ⟨_, rfl, by decide⟩
  obtain ⟨hnone, hsome⟩ := run_timeval (busy_reached hrun)
  exact ⟨vp, hrun, hnone, hsome _ htv⟩

/-- A sleep of 2^51 microseconds: the seconds come out negative. -/
example : ((Vp.init 0 1 0).steps [.usleep (2 ^ 51)]).map Vp.timeval
    = some (some (-2043167483, 685248)) := by decide

end

end RtmpServer.Sched
