/-
Carrying out whole scripts.

Every place in the queue and every new turn is a step forward, and a scheduler may
take as many steps as a script can need, so in the end nobody can go on any more.
Then all workers are at their ends, and all that was to happen has happened.

* `Scheduler.Orderly.run` — in the end nobody can go on;
* `Scheduler.Orderly.all_ended` — then all workers are at their ends;
* `Script.perm_noted` — all that a sound script has to make known is made known;
* `Script.perm_completions` — all tasks that it starts complete, each of them once;
* `Script.countP_isEnded` — its worker comes to the end, and only once.
-/
import DocTemplate.Proofs.CarryOut

namespace DocTemplate

namespace Scheduler

variable {s s' : Scheduler} {id : Nat} {w : Worker}

/-! ### Places and turns -/

/-- A scheduler takes at least some number of steps, and nothing is lost. -/
structure Proceeds (s s' : Scheduler) (steps : Nat) : Prop where
  orderly : s'.Orderly none s'.resting
  bound : s'.bound + steps ≤ s.bound
  worth : ∀ μ, OnlyFirst μ → s'.worth μ = s.worth μ

theorem Proceeds.trans {s'' : Scheduler} {m n : Nat} (h : Proceeds s s' m)
    (h' : Proceeds s' s'' n) : Proceeds s s'' (m + n) := by
  refine ⟨h'.orderly, ?_, fun μ hμ => (h'.worth μ hμ).trans (h.worth μ hμ)⟩
  have := h.bound
  have := h'.bound
  omega

/-- The state in which a worker has taken up its script. -/
def takeUp (s : Scheduler) (id : Nat) : Scheduler :=
  s.change id fun w => { w with script := [], standing := .busy }

/-- A worker that is called, and has left the queue, takes up its script. -/
theorem Orderly.takeUp {t : Scheduler} (h : s.Orderly none s.resting)
    (hw : s.workers[id]? = some w) (hcalled : w.standing = .called)
    (hworkers : t.workers = s.workers) (hrunner : t.runner = s.runner)
    (hresting : t.resting = s.resting)
    (hother : ∀ i, i ≠ id → t.queue.count i = s.queue.count i) (hid : t.queue.count id = 0) :
    (t.takeUp id).Carries id { w with script := [], standing := .busy } w.script := by
  obtain ⟨_, hrest, hanswered, hstarted, hsound, _, _, _, _⟩ := h.fits id w hw
  let g (w : Worker) : Worker := { w with script := [], standing := .busy }
  have hwt : t.workers[id]? = some w := by rw [hworkers, hw]
  refine ⟨?_, workers_change_self hwt g, rfl, hsound (by simp)⟩
  refine h.update hw g ?_ hrunner (fun i hi => ⟨hother i hi, ?_, ?_⟩) rfl (Nat.le_refl _)
    (by simp [g, hcalled]) ⟨?_, ?_, hanswered, hstarted, fun hn => absurd rfl hn,
      fun hn => absurd rfl hn, ?_, ?_, fun _ => rfl⟩
  · unfold Scheduler.takeUp change
    rw [hworkers]
  · show t.resting.count i = _
    rw [hresting]
  · simp [Ne.symm hi]
  · show t.queue.count id = _
    simp [hid, g]
  · show t.resting.count id = _
    rw [hresting, hrest]
    simp [hcalled, g]
  · simp [g]
  · simp [g]

theorem goOn_eq (hw : s.workers[id]? = some w) :
    s.goOn id = carryOut id w.script (s.takeUp id) := by
  simp only [goOn, hw]
  rfl

theorem Orderly.goOn {t : Scheduler} (h : s.Orderly none s.resting)
    (hw : s.workers[id]? = some w) (hcalled : w.standing = .called)
    (hworkers : t.workers = s.workers) (hrunner : t.runner = s.runner)
    (hresting : t.resting = s.resting)
    (hother : ∀ i, i ≠ id → t.queue.count i = s.queue.count i) (hid : t.queue.count id = 0) :
    Proceeds t (t.goOn id) 2 := by
  let g (w : Worker) : Worker := { w with script := [], standing := .busy }
  have hwt : t.workers[id]? = some w := by rw [hworkers, hw]
  obtain ⟨horderly, hbound, hworth⟩ :=
    carried_carryOut (h.takeUp hw hcalled hworkers hrunner hresting hother hid)
  rw [goOn_eq hwt]
  refine ⟨horderly, ?_, ?_⟩
  · have hchange := bound_change hwt g
    have hweight : (g w).weight + w.script.cost + 2 = w.weight := by
      simp only [Worker.weight, Standing.weight, g, hcalled, Script.cost_nil]
      omega
    have htaken : (t.takeUp id).bound = (t.change id g).bound := rfl
    omega
  · intro μ hμ
    have hchange := worth_change μ hwt g
    have hsplit : w.worth μ = (g w).worth μ + w.script.worth μ w.employer?.isNone w.started := by
      have hfarewell : farewell (g w) = farewell w := rfl
      simp only [Worker.worth, hfarewell, hcalled, reduceCtorEq, if_false, g, Script.worth_nil]
      omega
    have htaken : (t.takeUp id).worth μ = (t.change id g).worth μ := rfl
    have hgone := hworth μ hμ
    simp only at hgone
    omega

/-- The worker at the front of the queue is called, and stands nowhere else in it. -/
theorem Orderly.front (h : s.Orderly none s.resting) (places : Nat) {ready : List Nat}
    (hready : s.ready = id :: ready) :
    ∃ w : Worker, s.workers[id]? = some w ∧ w.standing = .called
      ∧ (∀ i, i ≠ id → ({ s with places, ready } : Scheduler).queue.count i = s.queue.count i)
      ∧ ({ s with places, ready } : Scheduler).queue.count id = 0 := by
  have hmem : id ∈ s.queue ++ s.resting := by
    unfold queue
    rw [hready]
    simp
  obtain ⟨w, hw⟩ : ∃ w : Worker, s.workers[id]? = some w :=
    ⟨_, Array.getElem?_eq_getElem (h.known id hmem)⟩
  have hqueue (i : Nat) : s.queue.count i
      = ({ s with places, ready } : Scheduler).queue.count i + if id = i then 1 else 0 := by
    show (s.ready ++ s.called).count i = (ready ++ s.called).count i + _
    rw [hready, List.cons_append, List.count_cons]
    simp
  have hqueued := (h.fits id w hw).queued
  have hid := hqueue id
  rw [if_pos rfl] at hid
  refine ⟨w, hw, ?_, fun i hi => ?_, ?_⟩
  · refine Decidable.byContradiction ?_
    intro hn
    rw [if_neg (fun hc => hn hc.1)] at hqueued
    omega
  · rw [hqueue, if_neg (Ne.symm hi), Nat.add_zero]
  · split at hqueued <;> omega

theorem Orderly.goOn_ready (h : s.Orderly none s.resting) (places : Nat) {ready : List Nat}
    (hready : s.ready = id :: ready) :
    Proceeds s ({ s with places, ready }.goOn id) 1 := by
  obtain ⟨w, hw, hcalled, hother, hid⟩ := h.front places hready
  have hgoOn : Proceeds { s with places, ready } ({ s with places, ready }.goOn id) 2 :=
    h.goOn hw hcalled rfl rfl rfl hother hid
  refine ⟨hgoOn.orderly, ?_, hgoOn.worth⟩
  have hbound := hgoOn.bound
  have hplace : ({ s with places, ready } : Scheduler).bound ≤ s.bound + 1 := by
    show s.total Worker.weight + s.called.length + (if places = 0 then 1 else 0)
      ≤ s.total Worker.weight + s.called.length + (if s.places = 0 then 1 else 0) + 1
    split <;> omega
  omega

theorem Orderly.gather (h : s.Orderly none s.resting) :
    Proceeds s s.gather s.called.length := by
  have hqueue (i : Nat) : s.gather.queue.count i = s.queue.count i := by
    show ((s.ready ++ s.called.reverse) ++ []).count i = (s.ready ++ s.called).count i
    simp only [List.append_nil, List.count_append, List.count_reverse]
  refine ⟨⟨⟨h.descends.employer, h.descends.root⟩, fun i hi => ?_, fun i v hv => ?_⟩, ?_,
    fun μ _ => rfl⟩
  · refine h.known i ?_
    rw [← List.count_pos_iff, List.count_append] at hi ⊢
    rw [hqueue] at hi
    exact hi
  · rw [hqueue]
    exact h.fits i v hv
  · show s.total Worker.weight + 0 + _ + _ ≤ s.total Worker.weight + s.called.length + _
    have hplaces : s.gather.places = s.places := rfl
    rw [hplaces]
    omega

theorem Orderly.call_resting {rest : List Nat} (h : s.Orderly none (id :: rest)) :
    ∃ w : Worker, s.workers[id]? = some w ∧ w.standing = .resting
      ∧ (s.call id).Orderly none rest := by
  obtain ⟨w, hw⟩ : ∃ w : Worker, s.workers[id]? = some w :=
    ⟨_, Array.getElem?_eq_getElem (h.known id (by simp))⟩
  obtain ⟨_, hresting, _, _, hsound, _⟩ := h.fits id w hw
  have hrests : w.standing = .resting := by
    refine Decidable.byContradiction ?_
    intro hn
    rw [if_neg hn, List.count_cons_self] at hresting
    omega
  refine ⟨w, hw, hrests, h.call hw (fun i _ => by simp) (.inr hrests) (fun i => ?_)
    (hsound (by simp))⟩
  rw [List.count_cons]
  simp [hrests]

theorem Orderly.foldl_call {ids rest : List Nat} (h : s.Orderly none (ids ++ rest)) :
    (ids.foldl Scheduler.call s).Orderly none rest ∧ (ids.foldl Scheduler.call s).resting = s.resting
      ∧ (ids.foldl Scheduler.call s).places = s.places
      ∧ (ids.foldl Scheduler.call s).bound + ids.length ≤ s.bound
      ∧ ∀ μ, (ids.foldl Scheduler.call s).worth μ = s.worth μ := by
  induction ids generalizing s with
  | nil => exact ⟨h, rfl, rfl, Nat.le_refl _, fun _ => rfl⟩
  | cons id ids ih =>
    obtain ⟨w, hw, hrests, hcall⟩ := h.call_resting
    obtain ⟨horderly, hrest, hplaces, hbound, hworth⟩ := ih hcall
    have hone := bound_call hw (by simp [hrests])
    rw [hrests] at hone
    have hplaced : (s.call id).places = s.places := by
      rw [call_eq hw (by simp [hrests])]
      split <;> rfl
    refine ⟨horderly, hrest.trans (resting_call s id), hplaces.trans hplaced, ?_, ?_⟩
    · simp only [Standing.weight] at hone
      rw [List.foldl_cons, List.length_cons]
      omega
    · intro μ
      rw [List.foldl_cons, hworth, worth_call hw (by simp [hrests]) (by simp [hrests])]

theorem Proceeds.le {m n : Nat} (h : Proceeds s s' n) (hm : m ≤ n) : Proceeds s s' m := by
  refine ⟨h.orderly, ?_, h.worth⟩
  have := h.bound
  omega

/-- Those who wait for a time, in front of all others, rest apart from these. -/
theorem Orderly.due (h : s.Orderly none s.resting) (hgaveWay : s.gaveWay = []) (time : Nat)
    {due : List (Nat × Nat)} (hdue : s.waiting.takeWhile (·.1 = time) = due) :
    ({ s with time, waiting := s.waiting.drop due.length } : Scheduler).Orderly none
      (due.map Prod.snd
        ++ ({ s with time, waiting := s.waiting.drop due.length } : Scheduler).resting) := by
  have hsplit : s.waiting = due ++ s.waiting.drop due.length := by
    have hprefix := List.takeWhile_prefix (fun entry : Nat × Nat => decide (entry.1 = time))
      (l := s.waiting)
    rw [hdue, List.prefix_iff_eq_append] at hprefix
    exact hprefix.symm
  have hresting : s.resting = due.map Prod.snd
      ++ ({ s with time, waiting := s.waiting.drop due.length } : Scheduler).resting := by
    simp only [resting, hgaveWay, List.nil_append]
    rw [← List.map_append, ← hsplit]
  rw [← hresting]
  exact ⟨⟨h.descends.employer, h.descends.root⟩, h.known, h.fits⟩

theorem Orderly.callDue (h : s.Orderly none s.resting) (hgaveWay : s.gaveWay = []) :
    s.callDue.places = s.places
      ∧ (Proceeds s s.callDue 1 ∨ s.waiting = [] ∧ s.callDue = s) := by
  unfold Scheduler.callDue
  split
  next hwaiting => exact ⟨rfl, .inr ⟨hwaiting, rfl⟩⟩
  next time id waiting hwaiting =>
    generalize hdue : s.waiting.takeWhile (fun entry => decide (entry.1 = time)) = due
    let t : Scheduler := { s with time, waiting := s.waiting.drop due.length }
    have horderly : t.Orderly none (due.map Prod.snd ++ t.resting) := h.due hgaveWay _ hdue
    obtain ⟨hcalled, hsame, hplaces, hbound, hworth⟩ := horderly.foldl_call
    have hpos : 1 ≤ (due.map Prod.snd).length := by
      rw [← hdue, hwaiting, List.takeWhile_cons]
      simp
    rw [← hsame] at hcalled
    refine ⟨hplaces, .inl ⟨hcalled, ?_, fun μ _ => hworth μ⟩⟩
    have hstart : t.bound = s.bound := rfl
    show ((due.map Prod.snd).foldl Scheduler.call t).bound + 1 ≤ s.bound
    omega

/-- Somebody is called for the next turn, unless nobody rests who could be. -/
theorem Orderly.callNext (h : s.Orderly none s.resting) :
    s.callNext.places = s.places
      ∧ (Proceeds s s.callNext 1 ∨ s.callNext = s ∧ s.gaveWay = []
        ∧ (s.ready = [] → s.foregroundCalled = false → s.waiting = [])) := by
  unfold Scheduler.callNext
  split
  next hnobody =>
    simp only [Bool.and_eq_true, List.isEmpty_iff] at hnobody
    obtain ⟨hplaces, hcalled | ⟨hwaiting, hsame⟩⟩ := h.callDue hnobody.1.1
    · exact ⟨hplaces, .inl hcalled⟩
    · exact ⟨hplaces, .inr ⟨hsame, hnobody.1.1, fun _ _ => hwaiting⟩⟩
  next hsomebody =>
    let t : Scheduler := { s with gaveWay := [] }
    have horderly : t.Orderly none (s.gaveWay ++ t.resting) :=
      ⟨⟨h.descends.employer, h.descends.root⟩, h.known, h.fits⟩
    obtain ⟨hcalled, hsame, hplaces, hbound, hworth⟩ := horderly.foldl_call
    rw [← hsame] at hcalled
    refine ⟨hplaces, ?_⟩
    cases hgaveWay : s.gaveWay with
    | nil =>
      right
      refine ⟨?_, rfl, ?_⟩
      · obtain ⟨_, _, _, _, _, _, _, _, _⟩ := s
        obtain rfl := hgaveWay
        rfl
      · intro hready hforeground
        simp [hgaveWay, hready, hforeground] at hsomebody
    | cons id ids =>
      left
      rw [hgaveWay] at hcalled hbound hworth
      refine ⟨hcalled, ?_, fun μ _ => hworth μ⟩
      have hstart : t.bound = s.bound := rfl
      rw [List.length_cons] at hbound
      show ((id :: ids).foldl Scheduler.call t).bound + 1 ≤ s.bound
      omega

/-- A scheduler in which nobody stands in the queue or rests is idle, unless the
foreground is called. -/
theorem Orderly.isIdle (h : s.Orderly none s.resting) (hready : s.ready = [])
    (hcalled : s.called = []) (hgaveWay : s.gaveWay = []) (hwaiting : s.waiting = [])
    (hforeground : s.foregroundCalled = false) : s.isIdle = true := by
  have hfirst : s.workers[first]?.any (·.isCalled) = false := by
    cases hw : s.workers[first]? with
    | none => rfl
    | some w =>
      have hqueued := (h.fits first w hw).queued
      have hqueue : s.queue.count first = 0 := by
        unfold queue
        rw [hready, hcalled]
        rfl
      simp only [foregroundCalled, hw, Option.any_some, Bool.and_eq_false_iff] at hforeground
      rcases hforeground with hrunner | hw
      · have hnot : s.isForeground first = false := by
          simp only [isForeground, decide_true, Bool.true_and]
          exact hrunner
        rw [hqueue, hnot] at hqueued
        cases hs : w.standing <;> simp [hs, Worker.isCalled] at hqueued ⊢
      · simpa using hw
  simp [Scheduler.isIdle, hready, hcalled, hgaveWay, hwaiting, hfirst]

theorem Orderly.foreground (h : s.Orderly none s.resting)
    (hforeground : s.foregroundCalled = true) :
    ∃ w : Worker, s.workers[first]? = some w ∧ w.standing = .called
      ∧ s.queue.count first = 0 := by
  simp only [foregroundCalled, Bool.and_eq_true, decide_eq_true_eq] at hforeground
  obtain ⟨hrunner, hany⟩ := hforeground
  obtain ⟨w, hw, hcalled⟩ : ∃ w : Worker, s.workers[first]? = some w ∧ w.standing = .called := by
    cases hw : s.workers[first]? with
    | none => simp [hw] at hany
    | some w => exact ⟨w, rfl, by simpa [hw, Worker.isCalled] using hany⟩
  have hqueued := (h.fits first w hw).queued
  rw [if_neg (by simp [isForeground, hrunner])] at hqueued
  exact ⟨w, hw, hcalled, hqueued⟩

theorem Orderly.goOn_foreground (h : s.Orderly none s.resting)
    (hforeground : s.foregroundCalled = true) : Proceeds s (s.goOn first) 2 := by
  obtain ⟨w, hw, hcalled, hqueued⟩ := h.foreground hforeground
  exact h.goOn hw hcalled rfl rfl rfl (fun _ _ => rfl) hqueued

theorem Orderly.newPlaces (h : s.Orderly none s.resting) :
    Proceeds s { s with places := turnLength } (if s.places = 0 then 1 else 0) := by
  refine ⟨⟨⟨h.descends.employer, h.descends.root⟩, h.known, h.fits⟩, ?_, fun _ _ => rfl⟩
  exact Nat.le_refl (s.total Worker.weight + s.called.length + if s.places = 0 then 1 else 0)

/-- The state in which a new turn has been made ready for. -/
def nextTurn (s : Scheduler) : Scheduler := { s.gather.callNext with places := turnLength }

theorem beginTurn_eq (s : Scheduler) : s.beginTurn
    = if s.nextTurn.foregroundCalled then s.nextTurn.goOn first else s.nextTurn := rfl

/-- A new turn is a step, unless nobody can go on any more. -/
theorem Orderly.beginTurn (h : s.Orderly none s.resting)
    (hturn : s.places = 0 ∨ s.ready = [] ∧ s.called = []) :
    Proceeds s s.nextTurn 0
      ∧ (Proceeds s s.beginTurn 1 ∨ Proceeds s s.beginTurn 0 ∧ s.beginTurn.isIdle = true) := by
  have hgather := h.gather
  obtain ⟨hplaces, hcalled⟩ := hgather.orderly.callNext
  have hnext : Proceeds s s.gather.callNext 0 := by
    rcases hcalled with hone | ⟨hsame, _⟩
    · exact (hgather.trans hone).le (Nat.zero_le _)
    · rw [hsame]
      exact hgather.le (Nat.zero_le _)
  have hturned : Proceeds s.gather.callNext s.nextTurn (if s.places = 0 then 1 else 0) := by
    have hsame : s.gather.callNext.places = s.places := hplaces
    rw [← hsame]
    exact hnext.orderly.newPlaces
  have hstep := hnext.trans hturned
  refine ⟨hstep.le (Nat.zero_le _), ?_⟩
  rw [beginTurn_eq]
  split
  next hforeground =>
    left
    exact (hstep.trans (hstep.orderly.goOn_foreground hforeground)).le (by omega)
  next hforeground =>
    by_cases hzero : s.places = 0
    · left
      rw [if_pos hzero] at hstep
      exact hstep
    · rcases hcalled with hone | ⟨hsame, hgaveWay, hwaiting⟩
      · left
        exact ((hgather.trans hone).trans hturned).le (by omega)
      · right
        refine ⟨hstep.le (Nat.zero_le _), ?_⟩
        obtain ⟨hready, hqueue⟩ := hturn.resolve_left hzero
        have hgathered : s.gather.ready = [] := by
          show s.ready ++ s.called.reverse = []
          rw [hready, hqueue]
          rfl
        have hforeground : s.gather.foregroundCalled = false := by
          have : s.nextTurn.foregroundCalled = s.gather.foregroundCalled := by
            show s.gather.callNext.foregroundCalled = _
            rw [hsame]
          rw [← this]
          simpa using hforeground
        have ht : s.nextTurn = { s.gather with places := turnLength } := by
          show ({ s.gather.callNext with places := turnLength } : Scheduler) = _
          rw [hsame]
        have hidle := hstep.orderly.isIdle
        rw [ht] at hidle ⊢
        exact hidle hgathered rfl hgaveWay (hwaiting hgathered hforeground) hforeground

/-- A scheduler for which no steps are left is idle. -/
theorem Orderly.isIdle_of_bound (h : s.Orderly none s.resting) (hbound : s.bound = 0) :
    s.isIdle = true := by
  unfold bound at hbound
  have hweight (i : Nat) (v : Worker) (hv : s.workers[i]? = some v) : v.standing.weight = 0 := by
    refine Nat.eq_zero_of_not_pos ?_
    intro hpos
    have : 0 < s.total Worker.weight := by
      refine List.sum_pos_iff_exists_pos_nat.mpr ⟨v.weight, ?_, ?_⟩
      · exact List.mem_map_of_mem (List.mem_of_getElem? (by simpa using hv))
      · unfold Worker.weight
        omega
    omega
  have habsent (i : Nat) : i ∉ s.queue ++ s.resting := by
    intro hi
    obtain ⟨v, hv⟩ : ∃ v : Worker, s.workers[i]? = some v :=
      ⟨_, Array.getElem?_eq_getElem (h.known i hi)⟩
    have hzero := hweight i v hv
    obtain ⟨hqueued, hresting, _⟩ := h.fits i v hv
    have hcount : 0 < (s.queue ++ s.resting).count i := List.count_pos_iff.mpr hi
    rw [List.count_append, hqueued, hresting] at hcount
    cases hs : v.standing <;> simp [hs, Standing.weight] at hcount hzero
  have hnil : s.queue ++ s.resting = [] := List.eq_nil_iff_forall_not_mem.mpr habsent
  simp only [queue, resting, List.append_eq_nil_iff, List.map_eq_nil_iff] at hnil
  refine h.isIdle hnil.1.1 hnil.1.2 hnil.2.1 hnil.2.2 ?_
  cases hw : s.workers[first]? with
  | none => simp [foregroundCalled, hw]
  | some w =>
    have hzero := hweight first w hw
    cases hs : w.standing <;> simp [foregroundCalled, hw, Worker.isCalled, hs, Standing.weight] at hzero ⊢

/-- A scheduler that may take as many steps as are left comes to where nobody can go
on any more. -/
theorem Orderly.run {n : Nat} (h : s.Orderly none s.resting) (hn : s.bound ≤ n) :
    (Scheduler.run n s).isIdle = true ∧ Proceeds s (Scheduler.run n s) 0 := by
  induction n generalizing s with
  | zero => exact ⟨h.isIdle_of_bound (by omega), h, Nat.le_refl _, fun _ _ => rfl⟩
  | succ n ih =>
    have hlater {t : Scheduler} (hstep : Proceeds s t 1) :
        (Scheduler.run n t).isIdle = true ∧ Proceeds s (Scheduler.run n t) 0 := by
      have := hstep.bound
      obtain ⟨hidle, hrest⟩ := ih hstep.orderly (by omega)
      exact ⟨hidle, (hstep.trans hrest).le (Nat.zero_le _)⟩
    have hturn (hturn : s.places = 0 ∨ s.ready = [] ∧ s.called = []) :
        (if s.beginTurn.isIdle then s.beginTurn else Scheduler.run n s.beginTurn).isIdle = true
          ∧ Proceeds s
              (if s.beginTurn.isIdle then s.beginTurn else Scheduler.run n s.beginTurn) 0 := by
      rcases (h.beginTurn hturn).2 with hstep | ⟨hstep, hidle⟩
      · split
        next hidle => exact ⟨hidle, hstep.le (Nat.zero_le _)⟩
        next => exact hlater hstep
      · rw [if_pos hidle]
        exact ⟨hidle, hstep⟩
    cases hplaces : s.places with
    | zero =>
      have hrun : Scheduler.run (n + 1) s
          = if s.beginTurn.isIdle then s.beginTurn else Scheduler.run n s.beginTurn := by
        simp only [Scheduler.run, hplaces]
      rw [hrun]
      exact hturn (.inl hplaces)
    | succ places =>
      cases hready : s.ready with
      | cons id ready =>
        have hrun : Scheduler.run (n + 1) s
            = Scheduler.run n ({ s with places, ready }.goOn id) := by
          simp only [Scheduler.run, hplaces, hready]
        rw [hrun]
        exact hlater (h.goOn_ready places hready)
      | nil =>
        cases hcalled : s.called with
        | cons id ids =>
          have hrun : Scheduler.run (n + 1) s = Scheduler.run n s.gather := by
            simp only [Scheduler.run, hplaces, hready, hcalled]
          have hgather := h.gather
          rw [hcalled, List.length_cons] at hgather
          rw [hrun]
          exact hlater (hgather.le (by omega))
        | nil =>
          have hrun : Scheduler.run (n + 1) s
              = if s.beginTurn.isIdle then s.beginTurn else Scheduler.run n s.beginTurn := by
            simp only [Scheduler.run, hplaces, hready, hcalled]
          rw [hrun]
          exact hturn (.inr ⟨hready, hcalled⟩)

/-! ### The end of all work -/

/-- When nobody can go on any more all workers are at their ends: one who waited would
wait for a younger one. -/
theorem Orderly.all_ended (h : s.Orderly none s.resting) (hidle : s.isIdle = true)
    (hw : s.workers[id]? = some w) : w.standing = .ended := by
  simp only [Scheduler.isIdle, Bool.and_eq_true, List.isEmpty_iff, Bool.not_eq_true'] at hidle
  obtain ⟨⟨⟨⟨hready, hcalled⟩, hgaveWay⟩, hwaiting⟩, hfirst⟩ := hidle
  -- The induction goes from the youngest worker down.
  induction hn : s.workers.size - id using Nat.strongRecOn generalizing id w with
  | ind n ih =>
    obtain ⟨hqueued, hresting, _, hstarted, _, hwaits, _⟩ := h.fits id w hw
    have hsize := lt_size hw
    cases hs : w.standing with
    | busy =>
      have hlt := hwaits (by simp) hs
      obtain ⟨i, v, hv, hemployer, hnot⟩ := exists_of_inFlight_pos (show 0 < s.inFlight id w.joins by omega)
      have hyounger := (h.descends.employer i v hv id w.joins hemployer).1
      have := lt_size hv
      exact absurd (ih (s.workers.size - i) (by omega) hv rfl) hnot
    | resting => simp [hs, resting, hgaveWay, hwaiting] at hresting
    | called =>
      cases hforeground : s.isForeground id with
      | false => simp [hs, hforeground, queue, hready, hcalled] at hqueued
      | true =>
        simp only [isForeground, Bool.and_eq_true, decide_eq_true_eq] at hforeground
        rw [hforeground.1] at hw
        simp [hw, Worker.isCalled, hs] at hfirst
    | ended => rfl

/-- What an idle scheduler is worth has happened. -/
theorem Orderly.worth_of_isIdle (h : s.Orderly none s.resting) (hidle : s.isIdle = true)
    (μ : Report → Nat) : s.worth μ = (s.reports.map fun r => μ r.2).sum := by
  have hzero : s.total (Worker.worth μ) = 0 := by
    refine Nat.eq_zero_of_not_pos ?_
    intro hpos
    obtain ⟨n, hn, hpos⟩ := List.sum_pos_iff_exists_pos_nat.mp hpos
    obtain ⟨v, hv, rfl⟩ := List.mem_map.mp hn
    obtain ⟨i, hi⟩ := List.mem_iff_getElem?.mp hv
    have hget : s.workers[i]? = some v := by simpa using hi
    have hended := h.all_ended hidle hget
    have hscript := (h.fits i v hget).done hended
    simp [Worker.worth, hended, hscript] at hpos
  unfold worth
  omega

theorem orderly_beginning (runner : Runner) (script : Script) :
    (beginning runner script).Orderly (some first) [] := by
  have hget (i : Nat) (v : Worker) (hv : (beginning runner script).workers[i]? = some v) :
      i = first ∧ v = ⟨script, none, 0, 0, 0, 0, 0, .busy⟩ := by
    simp only [beginning] at hv
    cases i with
    | zero => exact ⟨rfl, by simpa using hv.symm⟩
    | succ i => simp at hv
  refine ⟨⟨?_, ?_⟩, ?_, ?_⟩
  · intro i v hv e join he
    obtain ⟨_, rfl⟩ := hget i v hv
    simp at he
  · intro i v hv
    obtain ⟨rfl, rfl⟩ := hget i v hv
    simp
  · intro i hi
    simp [queue, beginning] at hi
  · intro i v hv
    obtain ⟨rfl, rfl⟩ := hget i v hv
    refine ⟨?_, ?_, Nat.le_refl _, rfl, fun hn => absurd rfl hn, fun hn => absurd rfl hn, ?_, ?_,
      fun _ => rfl⟩ <;> simp [queue, beginning]

end Scheduler

/-- Whether a report tells of the end of the first worker. -/
def Report.isEnded : Report → Bool
  | .ended => true
  | _ => false

namespace Script

open Scheduler

variable {script : Script}

/-- The first worker is called to carry out a sound script, and has as many steps for it
as it needs. -/
theorem orderly_called (runner : Runner) (h : Script.Sound script) :
    ((beginning runner script).call first).Orderly none
        ((beginning runner script).call first).resting
      ∧ ((beginning runner script).call first).bound ≤ 9 * Script.size script := by
  have hworker : (beginning runner script).workers[first]?
      = some ⟨script, none, 0, 0, 0, 0, 0, .busy⟩ := rfl
  have hsound : script.SoundWith (0 - 0) := soundWith_zero.mpr h
  constructor
  · rw [show ((beginning runner script).call first).resting = [] from resting_call _ _]
    exact (orderly_beginning runner script).call hworker
      (fun i hi heq => hi (Option.some.inj heq).symm) (.inl rfl) (fun i => by simp) hsound
  · have hcall : ((beginning runner script).call first).bound + 0
        ≤ (beginning runner script).bound + 3 := bound_call hworker (by simp)
    have hcost := cost_add script
    have hbeginning : (beginning runner script).bound = script.cost + 1 := by
      simp [bound, total, beginning, Worker.weight, Standing.weight]
    omega

/-- Whatever the reports of a run are worth, all that a sound script makes happen is
reported, and the end of the first worker. -/
theorem sum_play (runner : Runner) (h : Script.Sound script) {μ : Report → Nat}
    (hμ : OnlyFirst μ) :
    ((play runner script).map fun r => μ r.2).sum = script.worth μ true 0 + μ .ended := by
  have hworker : (beginning runner script).workers[first]?
      = some ⟨script, none, 0, 0, 0, 0, 0, .busy⟩ := rfl
  let s := (beginning runner script).call first
  obtain ⟨horderly, hbound⟩ := orderly_called runner h
  have hworth : s.worth μ = script.worth μ true 0 + μ .ended := by
    rw [worth_call hworker (by simp) (by simp)]
    simp [Scheduler.worth, total, beginning, Worker.worth, farewell]
  obtain ⟨hidle, hproceeds⟩ := horderly.run hbound
  unfold play
  rw [List.map_reverse, List.sum_reverse, ← hproceeds.orderly.worth_of_isIdle hidle μ,
    hproceeds.worth μ hμ, hworth]

theorem count_filterMap {β : Type} [DecidableEq β] (f : Report → Option β) (b : β)
    (reports : List (Nat × Report)) :
    (reports.filterMap fun r => f r.2).count b
      = (reports.map fun r => if f r.2 = some b then 1 else 0).sum := by
  induction reports with
  | nil => rfl
  | cons r reports ih =>
    rw [List.filterMap_cons, List.map_cons, List.sum_cons, ← ih]
    cases hf : f r.2 with
    | none => simp
    | some c =>
      simp only [List.count_cons, Option.some.injEq, beq_iff_eq]
      omega

/-- All that a sound script has to make known is made known, and nothing else. -/
theorem perm_noted (runner : Runner) (h : Script.Sound script) :
    ((play runner script).filterMap fun r => r.2.observation?).Perm (Script.notes script) := by
  refine List.perm_iff_count.mpr ?_
  intro o
  let μ (r : Report) : Nat := if r.observation? = some o then 1 else 0
  have hnotes (os : List Observation) : notesWorth μ os = os.count o := by
    induction os with
    | nil => rfl
    | cons p os ih =>
      rw [notesWorth_cons, ih, List.count_cons]
      simp only [μ, Report.observation?, Option.some.injEq, beq_iff_eq]
      omega
  have htasks (indices : List Nat) : tasksWorth μ indices = 0 := by
    induction indices with
    | nil => rfl
    | cons i indices ih =>
      show 0 + tasksWorth μ indices = 0
      rw [ih]
  have hsum := sum_play runner h (μ := μ) fun _ _ _ => rfl
  rw [worth, hnotes, htasks] at hsum
  rw [count_filterMap]
  simpa [μ, Report.observation?] using hsum

/-- All tasks that the worker of a sound script starts complete, each of them once. -/
theorem perm_completions (runner : Runner) (h : Script.Sound script) :
    (completions runner script).Perm script.tasks := by
  refine List.perm_iff_count.mpr ?_
  intro i
  let μ (r : Report) : Nat := if r.task? = some i then 1 else 0
  have hnotes (os : List Observation) : notesWorth μ os = 0 := by
    induction os with
    | nil => rfl
    | cons o os ih =>
      show 0 + notesWorth μ os = 0
      rw [ih]
  have htasks (indices : List Nat) : tasksWorth μ indices = indices.count i := by
    induction indices with
    | nil => rfl
    | cons j indices ih =>
      have hcons : tasksWorth μ (j :: indices)
          = μ (.completed first j) + tasksWorth μ indices := rfl
      rw [hcons, ih, List.count_cons]
      simp only [μ, Report.task?, if_true, Option.some.injEq, beq_iff_eq]
      omega
  have hsum := sum_play runner h (μ := μ) fun employer index hne => by
    simp [μ, Report.task?, hne]
  rw [worth, hnotes, htasks] at hsum
  unfold completions
  rw [count_filterMap]
  simpa [μ, Report.task?, tasks] using hsum

/-- The first worker comes to its end, and only once. -/
theorem countP_isEnded (runner : Runner) (h : Script.Sound script) :
    (play runner script).countP (fun r => r.2.isEnded) = 1 := by
  let μ (r : Report) : Nat := if r.isEnded then 1 else 0
  have hnotes (os : List Observation) : notesWorth μ os = 0 := by
    induction os with
    | nil => rfl
    | cons o os ih =>
      show 0 + notesWorth μ os = 0
      rw [ih]
  have htasks (indices : List Nat) : tasksWorth μ indices = 0 := by
    induction indices with
    | nil => rfl
    | cons i indices ih =>
      show 0 + tasksWorth μ indices = 0
      rw [ih]
  have hsum := sum_play runner h (μ := μ) fun _ _ _ => rfl
  rw [worth, hnotes, htasks] at hsum
  have hcount (reports : List (Nat × Report)) :
      (reports.map fun r => μ r.2).sum = reports.countP fun r => r.2.isEnded := by
    induction reports with
    | nil => rfl
    | cons r reports ih =>
      rw [List.map_cons, List.sum_cons, List.countP_cons, ih, Nat.add_comm]
  rw [← hcount, hsum]
  rfl

end Script

end DocTemplate
