import ShapeQuake.Shutdown
import Mathlib.Algebra.Order.BigOperators.Group.List
import Mathlib.Algebra.Order.Group.Nat

/-! Every interleaving of `destroy_workers` with its workers. What carries the
proof is a count (`ack_sem` and the waits that are over make up the posts) and,
for each worker that was woken, that it sleeps only while its semaphore is up. -/
namespace ShapeQuake.ShutdownProofs
open Library.Runs Allocator Reactor Heap Shutdown

/-! ## Sums over the workers -/

/-- The sum of a quantity over all workers. -/
def total (quantity : Thread → Nat) (workers : List (Option Thread)) : Nat :=
  (workers.map fun worker => worker.elim 0 quantity).sum

theorem at_eq_some {system : System} :
    system.at_ index = some thread ↔ system.workers[index]? = some (some thread) := by
  simp [System.at_, Option.join_eq_some_iff]

theorem put_at_same {system : System} (held : system.at_ index = some old) (thread : Thread) :
    (system.put index thread).at_ index = some thread := by
  rw [at_eq_some] at held ⊢
  simp [System.put, (List.getElem?_eq_some_iff.mp held).1]

theorem put_at_other {system : System} (other : index ≠ place) (thread : Thread) :
    (system.put index thread).at_ place = system.at_ place := by
  simp [System.at_, System.put, List.getElem?_set_ne other]

/-- What holds of a new thread and held of all others holds of all. -/
theorem forall_put {system : System} {property : Nat → Thread → Prop}
    (held : system.at_ index = some old) (new : property index thread)
    (others : ∀ place other, place ≠ index → system.at_ place = some other → property place other) :
    ∀ place other, (system.put index thread).at_ place = some other → property place other := by
  intro place other found
  by_cases same : place = index
  · subst same
    rw [put_at_same held] at found
    exact Option.some.inj found ▸ new
  · rw [put_at_other (Ne.symm same)] at found
    exact others place other same found

/-- Replacing a thread changes a sum by the difference it makes. -/
theorem total_set (quantity : Thread → Nat) {workers : List (Option Thread)}
    (held : workers[index]? = some (some old)) (thread : Thread) :
    total quantity (workers.set index (some thread)) + quantity old =
      total quantity workers + quantity thread := by
  induction workers generalizing index with
  | nil => simp at held
  | cons first rest ih =>
    cases index with
    | zero =>
      obtain rfl := Option.some.inj held
      simp only [total, List.set_cons_zero, List.map_cons, List.sum_cons, Option.elim_some]
      omega
    | succ index =>
      have tail := ih held
      simp only [total, List.set_cons_succ, List.map_cons, List.sum_cons] at tail ⊢
      omega

/-- Which indices have a worker. -/
def shape (workers : List (Option Thread)) : List Bool := workers.map Option.isSome

theorem shape_set (held : workers[index]? = some (some old)) (thread : Thread) :
    shape (workers.set index (some thread)) = shape workers := by
  apply List.ext_getElem?
  intro place
  have inside := (List.getElem?_eq_some_iff.mp held).1
  rw [shape, shape, List.getElem?_map, List.getElem?_map, List.getElem?_set]
  by_cases same : index = place
  · subst same
    rw [if_pos rfl, if_pos inside, held]
    rfl
  · rw [if_neg same]

/-- The number of workers among the first so many indices. -/
def presentUpTo (workers : List (Option Thread)) (count : Nat) : Nat :=
  ((shape workers).take count).count true

/-- The number of workers. -/
def present (workers : List (Option Thread)) : Nat := (shape workers).count true

theorem presentUpTo_all (past : workers[count]? = none) : presentUpTo workers count = present workers := by
  rw [presentUpTo, List.take_of_length_le, present]
  simpa [shape] using past

theorem presentUpTo_succ (here : workers[count]? = some worker) :
    presentUpTo workers (count + 1) = presentUpTo workers count + worker.isSome.toNat := by
  have next : (shape workers)[count]? = some worker.isSome := by simp [shape, here]
  rw [presentUpTo, List.take_add_one, next, presentUpTo, Option.toList_some, List.count_append]
  cases worker <;> rfl

theorem presentUpTo_le (workers : List (Option Thread)) (count : Nat) :
    presentUpTo workers count ≤ present workers :=
  (List.take_sublist count (shape workers)).count_le true

/-- A quantity that is the same for each worker amounts to so many times their number. -/
theorem total_const {quantity : Thread → Nat}
    (each : ∀ thread, some thread ∈ workers → quantity thread = amount) :
    total quantity workers = amount * present workers := by
  induction workers with
  | nil => rfl
  | cons first rest ih =>
    have tail := ih fun thread later => each thread (List.mem_cons_of_mem _ later)
    simp only [total, present, shape, List.map_cons, List.sum_cons, List.count_cons] at tail ⊢
    cases first with
    | none => simpa using tail
    | some thread =>
      rw [Option.elim_some, each thread List.mem_cons_self, tail]
      simp only [Option.isSome_some, beq_self_eq_true, if_true, Nat.mul_succ]
      omega

/-- A quantity of at most one for each worker amounts to at most their number. -/
theorem total_le_present {quantity : Thread → Nat}
    (atMost : ∀ thread, some thread ∈ workers → quantity thread ≤ 1) :
    total quantity workers ≤ present workers := by
  induction workers with
  | nil => exact Nat.zero_le _
  | cons first rest ih =>
    have tail := ih fun thread later => atMost thread (List.mem_cons_of_mem _ later)
    simp only [total, present, shape, List.map_cons, List.sum_cons, List.count_cons] at tail ⊢
    cases first with
    | none => simpa using tail
    | some thread =>
      have here := atMost thread List.mem_cons_self
      simp only [Option.elim_some, Option.isSome_some, beq_self_eq_true, if_true]
      omega

/-- If it amounts to their number, it is one for each. -/
theorem all_one {quantity : Thread → Nat}
    (atMost : ∀ thread, some thread ∈ workers → quantity thread ≤ 1)
    (enough : present workers ≤ total quantity workers) :
    ∀ thread, some thread ∈ workers → quantity thread = 1 := by
  induction workers with
  | nil => exact fun _ absent => nomatch absent
  | cons first rest ih =>
    have others : ∀ thread, some thread ∈ rest → quantity thread ≤ 1 :=
      fun thread later => atMost thread (List.mem_cons_of_mem _ later)
    have tail := total_le_present others
    simp only [total, present, shape, List.map_cons, List.sum_cons, List.count_cons] at tail enough ih
    cases first with
    | none =>
      intro thread member
      exact ih others (by simpa using enough) thread (by simpa using member)
    | some head =>
      have here := atMost head List.mem_cons_self
      simp only [Option.elim_some, Option.isSome_some, beq_self_eq_true, if_true] at enough
      intro thread member
      rcases List.mem_cons.mp member with same | later
      · obtain rfl := Option.some.inj same
        omega
      · exact ih others (by omega) thread later

/-! ## The invariant -/

/-- What holds of each worker's thread. -/
structure SoundThread (thread : Thread) : Prop where
  posted : thread.posts = if thread.place = .returning ∨ thread.place = .ended then 1 else 0
  told : thread.notified = true → thread.shutdown = true
  woken : thread.notified = true → thread.place = .sleeping → 1 ≤ thread.sem
  walks : ∀ at_, thread.place = .walking at_ →
    thread.queue = .missing ∨ ∃ arena, thread.queue = .live arena ∧ WalksInside arena at_
  destroyed : thread.queue = .destroyed → thread.place = .returning ∨ thread.place = .ended
  freed : thread.freed = true → thread.place = .ended

/-- `destroy_workers` has posted the semaphore of the worker at this index. -/
def Told : Destroyer → Nat → Prop
  | .before, _ | .refused, _ => False
  | .flagging at_, index | .waking at_, index => index < at_
  | .waiting _, _ | .emptying _, _ | .joining _, _ | .freeing _, _ | .returned, _ => True

/-- How many acknowledgements `destroy_workers` has taken. -/
def taken (workers : List (Option Thread)) : Destroyer → Nat
  | .before | .flagging _ | .waking _ | .refused => 0
  | .waiting count => presentUpTo workers count
  | .emptying _ | .joining _ | .freeing _ | .returned => present workers

/-- What every step keeps. -/
structure Sound (system : System) : Prop where
  thread : ∀ index thread, system.at_ index = some thread → SoundThread thread
  told : ∀ index thread, system.at_ index = some thread →
    (thread.notified = true ↔ Told system.destroyer index)
  flagged : ∀ index, system.destroyer = .waking index →
    ∃ thread, system.at_ index = some thread ∧ thread.shutdown = true
  joined : ∀ index, system.destroyer = .freeing index →
    ∀ thread, system.at_ index = some thread → thread.place = .ended
  counted : system.ackSem + taken system.workers system.destroyer =
    total Thread.posts system.workers

/-! ## A worker's step -/

/-- A walk inside the chain stays inside until it is over. -/
theorem walkStep_inside (inside : WalksInside arena at_)
    (walked : walkStep arena at_ = some (after, next)) :
    next = .waiting ∨ WalksInside after next := by
  cases at_ with
  | waiting => cases walked
  | atBlock index =>
    obtain ⟨block, _, same⟩ := Option.map_eq_some_iff.mp walked
    obtain ⟨rfl, rfl⟩ := Prod.mk.inj same
    apply Or.inr
    split
    · exact inside
    · exact inside
  | reading index readOffset =>
    obtain ⟨block, _, same⟩ := Option.map_eq_some_iff.mp walked
    obtain ⟨rfl, rfl⟩ := Prod.mk.inj same
    apply Or.inr
    split
    · exact inside
    · exact inside
  | running index readOffset =>
    obtain ⟨block, _, same⟩ := Option.map_eq_some_iff.mp walked
    obtain ⟨rfl, rfl⟩ := Prod.mk.inj same
    exact .inr inside
  | leaving index =>
    obtain ⟨rfl, rfl⟩ := Prod.mk.inj (Option.some.inj walked)
    apply Or.inr
    split
    · assumption
    · trivial
  | resetting =>
    obtain ⟨reset, _, returned⟩ := Option.bind_eq_some_iff.mp walked
    obtain ⟨_, _, same⟩ := Option.map_eq_some_iff.mp returned
    exact .inl (Prod.mk.inj same).2.symm

/-- A chain that only grows keeps a walk inside. -/
theorem walksInside_grown (grown : arena.blocks.chain.length ≤ after.blocks.chain.length)
    (inside : WalksInside arena at_) : WalksInside after at_ := by
  cases at_ <;> first
    | exact inside
    | exact Nat.lt_of_lt_of_le inside grown

/-- A walk goes on as a walk, or it is over and the thread is at the top again. -/
theorem afterWalk_walking (walking : afterWalk next = .walking at_) : next = at_ ∧ next ≠ .waiting := by
  cases next <;> simp [afterWalk] at walking ⊢ <;> exact walking

theorem afterWalk_loop (next : ReactorRaces.Place) : afterWalk next ≠ .returning ∧
    afterWalk next ≠ .ended ∧ afterWalk next ≠ .sleeping := by
  cases next <;> simp [afterWalk]

/-- What a worker's thread can do in one step, and from where. -/
inductive Moves (thread : Thread) : Thread → Bool → Prop where
  | turnedAway (at_ : thread.place = .entering) : Moves thread { thread with place := .posting } false
  | entered (at_ : thread.place = .entering) : Moves thread { thread with place := .top } false
  | stopped (at_ : thread.place = .top) : Moves thread { thread with place := .left } false
  | asleep (at_ : thread.place = .top) (unflagged : ¬ thread.shutdown = true) :
      Moves thread { thread with isSleeping := true, place := .sleeping } false
  | awake (at_ : thread.place = .sleeping) (up : thread.sem ≠ 0) :
      Moves thread { thread with sem := thread.sem - 1, place := .woken } false
  | stoppedAwake (at_ : thread.place = .woken) :
      Moves thread { thread with isSleeping := false, place := .left } false
  | started (at_ : thread.place = .woken) :
      Moves thread { thread with isSleeping := false, place := .walking (.atBlock 0) } false
  | walked (at_ : thread.place = .walking here) (queue : thread.queue = .live arena)
      (ran : walkStep arena here = some (after, next)) :
      Moves thread { thread with queue := .live after, place := afterWalk next } false
  | left (at_ : thread.place = .left) :
      Moves thread { thread with isSleeping := true, place := .posting } false
  | posted (at_ : thread.place = .posting) :
      Moves thread { thread with place := .returning, posts := thread.posts + 1 } true
  | ended (at_ : thread.place = .returning) : Moves thread { thread with place := .ended } false

theorem threadStep_moves (stepped : threadStep thread = some (next, posts)) : Moves thread next posts := by
  unfold threadStep at stepped
  cases at_ : thread.place with
  | entering =>
    simp only [at_] at stepped
    obtain ⟨rfl, rfl⟩ := Prod.mk.inj (Option.some.inj stepped)
    split
    · exact .turnedAway at_
    · exact .entered at_
  | top =>
    simp only [at_] at stepped
    obtain ⟨rfl, rfl⟩ := Prod.mk.inj (Option.some.inj stepped)
    split
    · exact .stopped at_
    · rename_i unflagged
      exact .asleep at_ unflagged
  | sleeping =>
    simp only [at_] at stepped
    split at stepped
    · cases stepped
    · rename_i up
      obtain ⟨rfl, rfl⟩ := Prod.mk.inj (Option.some.inj stepped)
      exact .awake at_ up
  | woken =>
    simp only [at_] at stepped
    obtain ⟨rfl, rfl⟩ := Prod.mk.inj (Option.some.inj stepped)
    split
    · exact .stoppedAwake at_
    · exact .started at_
  | walking here =>
    simp only [at_] at stepped
    split at stepped
    · rename_i arena queue
      obtain ⟨⟨after, next⟩, ran, same⟩ := Option.map_eq_some_iff.mp stepped
      obtain ⟨rfl, rfl⟩ := Prod.mk.inj same
      exact .walked at_ queue ran
    · cases stepped
    · cases stepped
  | left =>
    simp only [at_] at stepped
    obtain ⟨rfl, rfl⟩ := Prod.mk.inj (Option.some.inj stepped)
    exact .left at_
  | posting =>
    simp only [at_] at stepped
    obtain ⟨rfl, rfl⟩ := Prod.mk.inj (Option.some.inj stepped)
    exact .posted at_
  | returning =>
    simp only [at_] at stepped
    obtain ⟨rfl, rfl⟩ := Prod.mk.inj (Option.some.inj stepped)
    exact .ended at_
  | ended =>
    simp only [at_] at stepped
    cases stepped

/-- A step that neither posts nor ends the thread keeps it sound if it goes to
sleep or walks only where it may. -/
private theorem sound_moved {thread : Thread} (sound : SoundThread thread) {next : Thread}
    (unposted : thread.place ≠ .returning ∧ thread.place ≠ .ended)
    (unpostedNext : next.place ≠ .returning ∧ next.place ≠ .ended)
    (same : next.posts = thread.posts ∧ next.notified = thread.notified ∧
      next.shutdown = thread.shutdown ∧ next.freed = thread.freed)
    (queue : next.queue = .destroyed → thread.queue = .destroyed)
    (woken : next.notified = true → next.place = .sleeping → 1 ≤ next.sem)
    (walks : ∀ at_, next.place = .walking at_ →
      next.queue = .missing ∨ ∃ arena, next.queue = .live arena ∧ WalksInside arena at_) :
    SoundThread next := by
  obtain ⟨posts, notified, shutdown, freed⟩ := same
  refine ⟨?_, ?_, woken, walks, ?_, ?_⟩
  · rw [posts, sound.posted, if_neg (not_or.mpr unposted), if_neg (not_or.mpr unpostedNext)]
  · rw [notified, shutdown]
    exact sound.told
  · exact fun destroyed => absurd (sound.destroyed (queue destroyed)) (not_or.mpr unposted)
  · exact fun gone => absurd (sound.freed (freed ▸ gone)) unposted.2

/-- A queue that is not there any more is read by nobody. -/
private theorem queue_of_loop {thread : Thread} (sound : SoundThread thread)
    (unposted : thread.place ≠ .returning ∧ thread.place ≠ .ended) : thread.queue ≠ .destroyed :=
  fun gone => absurd (sound.destroyed gone) (not_or.mpr unposted)

/-- A step of a worker keeps it sound, leaves what `destroy_workers` told it,
and counts a post if it makes one. -/
theorem sound_threadStep (sound : SoundThread thread) (stepped : threadStep thread = some (next, posts)) :
    SoundThread next ∧ next.notified = thread.notified ∧ next.shutdown = thread.shutdown ∧
      next.posts = thread.posts + posts.toNat := by
  cases threadStep_moves stepped with
  | turnedAway at_ | entered at_ | stopped at_ | awake at_ _ | stoppedAwake at_ | left at_ =>
    exact ⟨sound_moved sound (by simp [at_]) (by simp) ⟨rfl, rfl, rfl, rfl⟩ id (by simp) (by simp),
      rfl, rfl, rfl⟩
  | asleep at_ unflagged =>
    -- nobody has told it to stop, so nobody has woken it for that
    exact ⟨sound_moved sound (by simp [at_]) (by simp) ⟨rfl, rfl, rfl, rfl⟩ id
      (fun told => absurd (sound.told told) unflagged) (by simp), rfl, rfl, rfl⟩
  | started at_ =>
    have loop : thread.place ≠ .returning ∧ thread.place ≠ .ended := by simp [at_]
    refine ⟨sound_moved sound loop (by simp) ⟨rfl, rfl, rfl, rfl⟩ id (by simp) ?_, rfl, rfl, rfl⟩
    rintro place ⟨⟩
    cases queue : thread.queue with
    | missing => exact .inl rfl
    | live arena => exact .inr ⟨arena, rfl, by simp [WalksInside, Blocks.chain]⟩
    | destroyed => exact absurd queue (queue_of_loop sound loop)
  | @walked here arena after next at_ queue ran =>
    have inside : WalksInside arena here := by
      rcases sound.walks here at_ with missing | ⟨other, same, inside⟩
      · cases queue.symm.trans missing
      · obtain rfl := Queue.live.inj (queue.symm.trans same)
        exact inside
    obtain ⟨unreturned, unended, awake⟩ := afterWalk_loop next
    refine ⟨sound_moved sound (by simp [at_]) ⟨unreturned, unended⟩ ⟨rfl, rfl, rfl, rfl⟩ (by simp)
      (fun _ asleep => absurd asleep awake) (fun place walking => ?_), rfl, rfl, rfl⟩
    obtain ⟨rfl, going⟩ := afterWalk_walking walking
    exact .inr ⟨after, rfl, (walkStep_inside inside ran).resolve_left going⟩
  | posted at_ =>
    have none_ : thread.posts = 0 := by simpa [at_] using sound.posted
    refine ⟨⟨by simp [none_], sound.told, by simp, by simp, fun _ => .inl rfl, fun gone => ?_⟩,
      rfl, rfl, rfl⟩
    exact absurd (at_.symm.trans (sound.freed gone)) (by simp)
  | ended at_ =>
    have one : thread.posts = 1 := by simpa [at_] using sound.posted
    exact ⟨⟨by simp [one], sound.told, by simp, by simp, fun _ => .inr rfl, fun _ => rfl⟩, rfl, rfl, rfl⟩

/-! ## The steps of the system -/

/-- Replacing a thread leaves what was counted of the indices. -/
theorem taken_set (held : workers[index]? = some (some old)) (thread : Thread) (destroyer : Destroyer) :
    taken (workers.set index (some thread)) destroyer = taken workers destroyer := by
  cases destroyer <;> simp [taken, presentUpTo, present, shape_set held]

/-- Once the waits are over every worker has acknowledged. -/
theorem acknowledged {system : System} (sound : Sound system) (past : PastWaits system.destroyer)
    (held : system.at_ index = some thread) : Acknowledged thread := by
  have all : taken system.workers system.destroyer = present system.workers := by
    cases destroyer : system.destroyer <;> simp_all [PastWaits, taken]
  have atMost : ∀ thread, some thread ∈ system.workers → thread.posts ≤ 1 := by
    intro thread member
    obtain ⟨place, found⟩ := List.mem_iff_getElem?.mp member
    rw [(sound.thread place thread (at_eq_some.mpr found)).posted]
    split <;> decide
  have enough : present system.workers ≤ total Thread.posts system.workers := by
    have := sound.counted
    omega
  have one := all_one atMost enough thread (List.mem_of_getElem? (at_eq_some.mp held))
  have posted := (sound.thread index thread held).posted
  rw [one] at posted
  by_cases gone : thread.place = .returning ∨ thread.place = .ended
  · exact ⟨one, gone⟩
  · rw [if_neg gone] at posted
    cases posted

/-- `destroy_workers` moves on and changes no worker. -/
private theorem sound_moves {system next : System} (sound : Sound system)
    (workers : next.workers = system.workers)
    (told : ∀ index thread, system.at_ index = some thread →
      (Told system.destroyer index ↔ Told next.destroyer index))
    (flagged : ∀ index, next.destroyer ≠ .waking index)
    (joined : ∀ index, next.destroyer = .freeing index →
      ∀ thread, system.at_ index = some thread → thread.place = .ended)
    (counted : next.ackSem + taken system.workers next.destroyer =
      system.ackSem + taken system.workers system.destroyer) : Sound next := by
  have same : next.at_ = system.at_ := funext fun index => by rw [System.at_, workers, System.at_]
  refine ⟨same ▸ sound.thread, ?_, fun index waking => absurd waking (flagged index), same ▸ joined, ?_⟩
  · intro index thread held
    rw [same] at held
    exact (sound.told index thread held).trans (told index thread held)
  · rw [workers, counted]
    exact sound.counted

/-- `destroy_workers` changes one worker and moves on. -/
private theorem sound_puts {system next : System} (sound : Sound system)
    (held : system.at_ index = some old) (thread : Thread) (new : SoundThread thread)
    (posts : thread.posts = old.posts)
    (workers : next.workers = (system.put index thread).workers) (ack : next.ackSem = system.ackSem)
    (own : thread.notified = true ↔ Told next.destroyer index)
    (others : ∀ place, place ≠ index → (Told system.destroyer place ↔ Told next.destroyer place))
    (flagged : ∀ place, next.destroyer = .waking place → place = index ∧ thread.shutdown = true)
    (joined : ∀ place, next.destroyer ≠ .freeing place)
    (counted : taken system.workers next.destroyer = taken system.workers system.destroyer) :
    Sound next := by
  have same : next.at_ = (system.put index thread).at_ :=
    funext fun place => by rw [System.at_, workers, System.at_]
  refine ⟨?_, ?_, ?_, fun place freeing => absurd freeing (joined place), ?_⟩
  · rw [same]
    exact forall_put held new fun place other _ found => sound.thread place other found
  · rw [same]
    exact forall_put held own fun place other different found =>
      (sound.told place other found).trans (others place different)
  · intro place waking
    obtain ⟨rfl, shutdown⟩ := flagged place waking
    exact ⟨thread, same ▸ put_at_same held thread, shutdown⟩
  · have total := total_set Thread.posts (at_eq_some.mp held) thread
    have before := sound.counted
    rw [workers, ack]
    simp only [System.put]
    rw [taken_set (at_eq_some.mp held), counted]
    omega

private theorem absent_of_entry {system : System} (entry : system.workers[index]? = some none)
    (held : system.at_ place = some thread) : place ≠ index := by
  rintro rfl
  exact nomatch entry.symm.trans (at_eq_some.mp held)

private theorem inside_of_at {system : System} (past : system.workers[index]? = none)
    (held : system.at_ place = some thread) : place < index := by
  have := (List.getElem?_eq_some_iff.mp (at_eq_some.mp held)).1
  have := List.getElem?_eq_none_iff.mp past
  omega

/-- The steps a walk has before it in these blocks, at most. -/
def blocksRank (chain : List ArenaBlock) : Nat := (chain.map fun block => 2 * block.offset + 3).sum

/-- The steps of a pass over a worker's queue, at most. -/
def passRank : Queue → Nat
  | .live arena => blocksRank arena.blocks.chain + 2
  | .missing | .destroyed => 0

/-- What `destroy_workers` can do in one step, and from where. -/
inductive Advance (system : System) : System → Prop where
  | begun (at_ : system.destroyer = .before) : Advance system { system with destroyer := .flagging 0 }
  | refused (at_ : system.destroyer = .before)
      (off : unhealthy (trackingHealth (some system.tracker)) = true) :
      Advance system { system with destroyer := .refused }
  | unflagged (at_ : system.destroyer = .flagging index) (entry : system.workers[index]? = some none) :
      Advance system { system with destroyer := .flagging (index + 1) }
  | flagged (at_ : system.destroyer = .flagging index) (held : system.at_ index = some w) :
      Advance system { system.put index { w with shutdown := true } with destroyer := .waking index }
  | woken (at_ : system.destroyer = .waking index) (held : system.at_ index = some w) :
      Advance system { system.put index { w with sem := w.sem + 1, notified := true } with
        destroyer := .flagging (index + 1) }
  | told (at_ : system.destroyer = .flagging index) (past : system.workers[index]? = none) :
      Advance system { system with destroyer := .waiting 0 }
  | unwaited (at_ : system.destroyer = .waiting index) (entry : system.workers[index]? = some none) :
      Advance system { system with destroyer := .waiting (index + 1) }
  | waited (at_ : system.destroyer = .waiting index) (entry : system.workers[index]? = some (some w))
      (up : system.ackSem ≠ 0) :
      Advance system { system with ackSem := system.ackSem - 1, destroyer := .waiting (index + 1) }
  | acknowledged (at_ : system.destroyer = .waiting index) (past : system.workers[index]? = none) :
      Advance system { system with destroyer := .emptying 0 }
  | unemptied (at_ : system.destroyer = .emptying index) (entry : system.workers[index]? = some none) :
      Advance system { system with destroyer := .emptying (index + 1) }
  | emptied (at_ : system.destroyer = .emptying index) (held : system.at_ index = some w) :
      Advance system { system.put index { w with queue := .destroyed } with destroyer := .joining index }
  | joined (at_ : system.destroyer = .joining index) (held : system.at_ index = some w)
      (ended : w.place = .ended) : Advance system { system with destroyer := .freeing index }
  | freed (at_ : system.destroyer = .freeing index) (held : system.at_ index = some w) (freed : Bool)
      (tracker : HeapTracker) (memory : Memory) :
      Advance system { system.put index { w with freed } with
        tracker, memory, destroyer := .emptying (index + 1) }
  | returned (at_ : system.destroyer = .emptying index) (past : system.workers[index]? = none)
      (tracker : HeapTracker) (memory : Memory) :
      Advance system { system with tracker, memory, destroyer := .returned }

private theorem forced_gone (ran : arenaDestroy (some arena) true = some (left, st)) : left = none := by
  simp only [arenaDestroy, Bool.true_eq_false, false_and, if_false] at ran
  split at ran
  · cases ran
  · exact (Prod.mk.inj (Option.some.inj ran)).1.symm

theorem destroyStep_advance (stepped : destroyStep system = some next) : Advance system next := by
  unfold destroyStep at stepped
  cases at_ : system.destroyer with
  | before =>
    simp only [at_] at stepped
    split at stepped <;> obtain rfl := Option.some.inj stepped
    · rename_i off
      exact .refused at_ off
    · exact .begun at_
  | flagging index =>
    simp only [at_] at stepped
    split at stepped <;> rename_i entry <;> obtain rfl := Option.some.inj stepped
    · exact .told at_ entry
    · exact .unflagged at_ entry
    · exact .flagged at_ (at_eq_some.mpr entry)
  | waking index =>
    simp only [at_] at stepped
    obtain ⟨w, held, rfl⟩ := Option.map_eq_some_iff.mp stepped
    exact .woken at_ held
  | waiting index =>
    simp only [at_] at stepped
    split at stepped <;> rename_i entry
    · exact Option.some.inj stepped ▸ .acknowledged at_ entry
    · exact Option.some.inj stepped ▸ .unwaited at_ entry
    · split at stepped
      · cases stepped
      · rename_i up
        exact Option.some.inj stepped ▸ .waited at_ entry up
  | emptying index =>
    simp only [at_] at stepped
    split at stepped <;> rename_i entry
    · obtain ⟨⟨tracker, memory, st⟩, _, returned⟩ := Option.bind_eq_some_iff.mp stepped
      obtain ⟨tracker, _, rfl⟩ := Option.map_eq_some_iff.mp returned
      exact .returned at_ entry tracker memory
    · exact Option.some.inj stepped ▸ .unemptied at_ entry
    · split at stepped
      · rename_i arena queue
        obtain ⟨⟨left, st⟩, ran, rfl⟩ := Option.map_eq_some_iff.mp stepped
        rw [forced_gone ran]
        exact .emptied at_ (at_eq_some.mpr entry)
      · cases stepped
      · cases stepped
  | joining index =>
    simp only [at_] at stepped
    obtain ⟨w, held, joins⟩ := Option.bind_eq_some_iff.mp stepped
    split at joins
    · rename_i ended
      exact Option.some.inj joins ▸ .joined at_ held ended
    · cases joins
  | freeing index =>
    simp only [at_] at stepped
    obtain ⟨w, held, frees⟩ := Option.bind_eq_some_iff.mp stepped
    obtain ⟨⟨tracker, memory, st⟩, _, returned⟩ := Option.bind_eq_some_iff.mp frees
    obtain ⟨tracker, _, rfl⟩ := Option.map_eq_some_iff.mp returned
    exact .freed at_ held _ tracker memory
  | refused => simp [at_] at stepped
  | returned => simp [at_] at stepped

theorem sound_advance {system : System} (sound : Sound system) (advance : Advance system next) :
    Sound next := by
  cases advance with
  | begun at_ =>
    refine sound_moves sound rfl (fun index _ _ => ?_) nofun nofun (by rw [at_]; rfl)
    rw [at_]
    exact iff_of_false id (Nat.not_lt_zero index)
  | refused at_ _ =>
    exact sound_moves sound rfl (fun _ _ _ => by rw [at_]; rfl) nofun nofun (by rw [at_]; rfl)
  | unflagged at_ entry =>
    refine sound_moves sound rfl (fun place thread held => ?_) nofun nofun (by rw [at_]; rfl)
    have := absent_of_entry entry held
    rw [at_]
    simp only [Told]
    omega
  | @flagged index w at_ held =>
    have whole := sound.thread index w held
    have untold := (sound.told index w held).not.mpr (by simp [at_, Told])
    refine sound_puts sound held { w with shutdown := true } ?_ rfl rfl rfl
      (iff_of_false untold (Nat.lt_irrefl index)) (fun _ _ => by rw [at_]; rfl) ?_ nofun
      (by rw [at_]; rfl)
    · exact ⟨whole.posted, fun _ => rfl, whole.woken, whole.walks, whole.destroyed, whole.freed⟩
    · rintro place ⟨⟩
      exact ⟨rfl, rfl⟩
  | @woken index w at_ held =>
    have whole := sound.thread index w held
    obtain ⟨flagged, here, shutdown⟩ := sound.flagged index at_
    obtain rfl := Option.some.inj (held.symm.trans here)
    refine sound_puts sound held { w with sem := w.sem + 1, notified := true } ?_ rfl rfl rfl
      (iff_of_true rfl (Nat.lt_succ_self index)) (fun place different => ?_) nofun nofun
      (by rw [at_]; rfl)
    · exact ⟨whole.posted, fun _ => shutdown, fun _ _ => Nat.le_add_left 1 _, whole.walks,
        whole.destroyed, whole.freed⟩
    · rw [at_]
      simp only [Told]
      omega
  | told at_ past =>
    refine sound_moves sound rfl (fun place thread held => ?_) nofun nofun ?_
    · rw [at_]
      exact iff_of_true (inside_of_at past held) trivial
    · rw [at_]
      simp [taken, presentUpTo]
  | unwaited at_ entry =>
    refine sound_moves sound rfl (fun _ _ _ => by rw [at_]; rfl) nofun nofun ?_
    rw [at_]
    simp [taken, presentUpTo_succ entry]
  | waited at_ entry up =>
    refine sound_moves sound rfl (fun _ _ _ => by rw [at_]; rfl) nofun nofun ?_
    rw [at_]
    simp only [taken, presentUpTo_succ entry, Option.isSome_some, Bool.toNat_true]
    omega
  | acknowledged at_ past =>
    refine sound_moves sound rfl (fun _ _ _ => by rw [at_]; rfl) nofun nofun ?_
    rw [at_]
    simp only [taken, presentUpTo_all past]
  | unemptied at_ entry =>
    exact sound_moves sound rfl (fun _ _ _ => by rw [at_]; rfl) nofun nofun (by rw [at_]; rfl)
  | @emptied index w at_ held =>
    have whole := sound.thread index w held
    have told := (sound.told index w held).mpr (by rw [at_]; trivial)
    have gone := (acknowledged sound (by rw [at_]; trivial) held).2
    refine sound_puts sound held { w with queue := .destroyed } ?_ rfl rfl rfl
      (iff_of_true told trivial) (fun _ _ => by rw [at_]; rfl) nofun nofun (by rw [at_]; rfl)
    refine ⟨whole.posted, whole.told, whole.woken, fun place walking => ?_, fun _ => gone, whole.freed⟩
    rcases gone with returning | ended
    · exact nomatch returning.symm.trans walking
    · exact nomatch ended.symm.trans walking
  | joined at_ held ended =>
    refine sound_moves sound rfl (fun _ _ _ => by rw [at_]; rfl) nofun ?_ (by rw [at_]; rfl)
    rintro place ⟨⟩ thread here
    exact Option.some.inj (held.symm.trans here) ▸ ended
  | @freed index w at_ held freed =>
    have whole := sound.thread index w held
    have told := (sound.told index w held).mpr (by rw [at_]; trivial)
    refine sound_puts sound held { w with freed } ?_ rfl rfl rfl
      (iff_of_true told trivial) (fun _ _ => by rw [at_]; rfl) nofun nofun (by rw [at_]; rfl)
    exact ⟨whole.posted, whole.told, whole.woken, whole.walks, whole.destroyed,
      fun _ => sound.joined index at_ w held⟩
  | returned at_ past =>
    exact sound_moves sound rfl (fun _ _ _ => by rw [at_]; rfl) nofun nofun (by rw [at_]; rfl)

/-- One thread moves on or is given work, while `destroy_workers` is where it was. -/
private theorem sound_changes {system next : System} (sound : Sound system)
    (held : system.at_ index = some old) (thread : Thread) (new : SoundThread thread)
    (told : thread.notified = old.notified ∧ thread.shutdown = old.shutdown)
    (ended : old.place = .ended → thread.place = .ended)
    (workers : next.workers = (system.put index thread).workers)
    (destroyer : next.destroyer = system.destroyer)
    (posts : next.ackSem + old.posts = system.ackSem + thread.posts) : Sound next := by
  have same : next.at_ = (system.put index thread).at_ :=
    funext fun place => by rw [System.at_, workers, System.at_]
  refine ⟨?_, ?_, ?_, ?_, ?_⟩
  · rw [same]
    exact forall_put held new fun place other _ found => sound.thread place other found
  · rw [same, destroyer]
    exact forall_put held (told.1 ▸ sound.told index old held)
      fun place other _ found => sound.told place other found
  · intro place waking
    obtain ⟨flagged, here, shutdown⟩ := sound.flagged place (destroyer ▸ waking)
    rw [same]
    by_cases own : place = index
    · subst own
      obtain rfl := Option.some.inj (held.symm.trans here)
      exact ⟨thread, put_at_same held thread, told.2.trans shutdown⟩
    · exact ⟨flagged, (put_at_other (Ne.symm own) thread).trans here, shutdown⟩
  · intro place freeing other found
    have joined := sound.joined place (destroyer ▸ freeing)
    rw [same] at found
    by_cases own : place = index
    · subst own
      rw [put_at_same held] at found
      exact Option.some.inj found ▸ ended (joined old held)
    · rw [put_at_other (Ne.symm own)] at found
      exact joined other found
  · have total := total_set Thread.posts (at_eq_some.mp held) thread
    have before := sound.counted
    rw [workers, destroyer]
    simp only [System.put]
    rw [taken_set (at_eq_some.mp held)]
    omega

theorem sound_work {system : System} (sound : Sound system)
    (stepped : step system (.work index) = some next) : Sound next := by
  obtain ⟨old, held, ran⟩ := Option.bind_eq_some_iff.mp stepped
  obtain ⟨⟨thread, posts⟩, moved, rfl⟩ := Option.map_eq_some_iff.mp ran
  obtain ⟨new, notified, shutdown, posted⟩ := sound_threadStep (sound.thread index old held) moved
  refine sound_changes sound held thread new ⟨notified, shutdown⟩ (fun ended => ?_) rfl rfl ?_
  · -- a thread that has ended takes no step
    simp [threadStep, ended] at moved
  · dsimp only [System.put]
    omega

theorem sound_enqueued {system : System} (sound : Sound system)
    (stepped : step system (.enqueued index arena posted) = some next) : Sound next := by
  obtain ⟨old, held, ran⟩ := Option.bind_eq_some_iff.mp stepped
  split at ran
  · rename_i was queue
    split at ran
    · rename_i grown
      obtain rfl := Option.some.inj ran
      have whole := sound.thread index old held
      refine sound_changes sound held { old with queue := .live arena, sem := old.sem + posted.toNat }
        ⟨whole.posted, whole.told, fun told asleep => ?_, fun at_ walking => ?_, nofun, whole.freed⟩
        ⟨rfl, rfl⟩ id rfl rfl rfl
      · exact Nat.le_add_right_of_le (whole.woken told asleep)
      · rcases whole.walks at_ walking with missing | ⟨other, same, inside⟩
        · exact nomatch queue.symm.trans missing
        · obtain rfl := Queue.live.inj (queue.symm.trans same)
          exact .inr ⟨arena, rfl, walksInside_grown grown inside⟩
    · cases ran
  · cases ran
  · cases ran

theorem sound_step {system : System} (sound : Sound system) (stepped : step system event = some next) :
    Sound next := by
  cases event with
  | work index => exact sound_work sound stepped
  | destroy => exact sound_advance sound (destroyStep_advance stepped)
  | enqueued index arena posted => exact sound_enqueued sound stepped

theorem at_of_mem {system : System} (member : some thread ∈ system.workers) :
    ∃ index, system.at_ index = some thread := by
  obtain ⟨index, found⟩ := List.mem_iff_getElem?.mp member
  exact ⟨index, at_eq_some.mpr found⟩

theorem sound_running (running : Running thread) : SoundThread thread := by
  obtain ⟨⟨_, untold⟩, unposted, ⟨held, there⟩, place⟩ := running
  have loop : ¬ (thread.place = .returning ∨ thread.place = .ended) := by
    rcases place with here | here | here | here | ⟨_, _, here, _⟩ <;> simp [here]
  refine ⟨by rw [unposted, if_neg loop], fun told => ?_, fun told => ?_, fun at_ walking => ?_,
    fun gone => absurd gone there, fun gone => ?_⟩
  · exact nomatch untold.symm.trans told
  · exact nomatch untold.symm.trans told
  · rcases place with here | here | here | here | ⟨other, arena, here, live, inside⟩
    · exact nomatch here.symm.trans walking
    · exact nomatch here.symm.trans walking
    · exact nomatch here.symm.trans walking
    · exact nomatch here.symm.trans walking
    · obtain rfl := Place.walking.inj (here.symm.trans walking)
      exact .inr ⟨arena, live, inside⟩
  · exact nomatch held.symm.trans gone

theorem sound_start {system : System} (started : Started system) : Sound system := by
  obtain ⟨before, quiet, running⟩ := started
  have none_ : total Thread.posts system.workers = 0 * present system.workers := by
    apply total_const
    intro thread member
    obtain ⟨index, held⟩ := at_of_mem member
    exact (running index thread held).unposted
  refine ⟨fun index thread held => sound_running (running index thread held), fun index thread held => ?_,
    fun index waking => ?_, fun index freeing => ?_, ?_⟩
  · rw [before, (running index thread held).untold.2]
    exact iff_of_false nofun id
  · exact nomatch before.symm.trans waking
  · exact nomatch before.symm.trans freeing
  · rw [before, quiet, none_]
    simp [taken]

/-! ## Nothing gets stuck -/

/-- A thread that was told to stop takes a step unless it has ended or halted. -/
theorem threadStep_isSome (sound : SoundThread thread) (told : thread.notified = true)
    (going : thread.place ≠ .ended) (walks : ¬ Halted thread) : (threadStep thread).isSome := by
  unfold threadStep
  cases place : thread.place with
  | entering | top | woken | left | posting | returning => rfl
  | ended => exact absurd place going
  | sleeping =>
    have up := sound.woken told place
    simp only
    rw [if_neg (by omega)]
    rfl
  | walking at_ =>
    rcases sound.walks at_ place with missing | ⟨arena, live, inside⟩
    · exact absurd ⟨at_, place, .inl missing⟩ walks
    · simp only [live, Option.isSome_map]
      cases at_ with
      | waiting => exact absurd inside id
      | atBlock index => simp [walkStep, WalksInside] at inside ⊢; exact inside
      | reading index readOffset => simp [walkStep, WalksInside] at inside ⊢; exact inside
      | running index readOffset => simp [walkStep, WalksInside] at inside ⊢; exact inside
      | leaving index => rfl
      | resetting =>
        cases locked : arena.mutex with
        | true => exact absurd ⟨.resetting, place, .inr ⟨arena, live, rfl, locked⟩⟩ walks
        | false => simp [walkStep, arenaReset_unlocked locked]

/-- While the waits are on, somebody can go on, or a walk has halted. -/
theorem finishes {system : System} (sound : Sound system) (stuck : Stuck system) :
    PastWaits system.destroyer ∨ system.destroyer = .refused ∨
      ∃ index thread, system.at_ index = some thread ∧ Halted thread := by
  obtain ⟨blocked, idle⟩ := stuck
  simp only [step, destroyStep] at blocked
  cases at_ : system.destroyer with
  | before => simp [at_] at blocked
  | refused => exact .inr (.inl rfl)
  | emptying | joining | freeing | returned => exact .inl trivial
  | flagging index =>
    rw [at_] at blocked
    simp only at blocked
    split at blocked <;> cases blocked
  | waking index =>
    obtain ⟨thread, held, _⟩ := sound.flagged index at_
    simp [at_, held] at blocked
  | waiting index =>
    refine .inr (.inr ?_)
    by_contra going
    rw [at_] at blocked
    simp only at blocked
    split at blocked
    · cases blocked
    · cases blocked
    rename_i w entry
    split at blocked
    case isFalse => cases blocked
    case isTrue down =>
      -- all threads have ended, so there are as many posts as workers
      have ended : ∀ thread, some thread ∈ system.workers → thread.posts = 1 := by
        intro thread member
        obtain ⟨place, held⟩ := at_of_mem member
        have whole := sound.thread place thread held
        have told := (sound.told place thread held).mpr (by rw [at_]; trivial)
        by_cases gone : thread.place = .ended
        · rw [whole.posted, if_pos (.inr gone)]
        · have moves := threadStep_isSome whole told gone fun halted => going ⟨place, thread, held, halted⟩
          have stays := idle place
          simp only [step, held, Option.bind_some, Option.map_eq_none_iff] at stays
          rw [stays] at moves
          cases moves
      have posts := total_const ended
      have counted := sound.counted
      have next := presentUpTo_le system.workers (index + 1)
      rw [presentUpTo_succ entry] at next
      simp only [at_, taken] at counted
      simp only [Option.isSome_some, Bool.toNat_true] at next
      omega

theorem safe_of_sound {system : System} (sound : Sound system) : Safe system := by
  refine ⟨?_, ?_, ?_, ?_⟩
  · intro index thread held
    rw [(sound.thread index thread held).posted]
    split <;> decide
  · exact fun past index thread held => acknowledged sound past held
  · rintro index thread held ⟨at_, walking⟩
    exact queue_of_loop (sound.thread index thread held) (by simp [walking])
  · exact fun index thread held => (sound.thread index thread held).freed

/-! ## Locks that come back -/

/-- The queue is there, or was, and nobody has kept its lock. -/
def Open (queue : Queue) : Prop :=
  queue ≠ .missing ∧ ∀ arena, queue = .live arena → arena.mutex = false

/-- What every step keeps that gives back the locks it takes. -/
structure Unblocked (system : System) : Prop where
  queues : ∀ index thread, system.at_ index = some thread → Open thread.queue
  accepted : system.destroyer ≠ .refused

/-- A walk gives back the lock that it takes for the reset. -/
theorem walkStep_unlocked (unlocked : arena.mutex = false)
    (walked : walkStep arena at_ = some (after, next)) : after.mutex = false := by
  cases at_ with
  | waiting => cases walked
  | atBlock index | reading index readOffset | running index readOffset =>
    obtain ⟨block, _, same⟩ := Option.map_eq_some_iff.mp walked
    exact (Prod.mk.inj same).1 ▸ unlocked
  | leaving index => exact (Prod.mk.inj (Option.some.inj walked)).1 ▸ unlocked
  | resetting =>
    obtain ⟨reset, ran, returned⟩ := Option.bind_eq_some_iff.mp walked
    obtain ⟨other, rfl, same⟩ := Option.map_eq_some_iff.mp returned
    obtain ⟨rfl, rfl⟩ := Prod.mk.inj same
    obtain ⟨_, emptied⟩ := arenaReset_cases ran
    obtain rfl := Option.some.inj emptied
    exact unlocked

theorem open_threadStep (opened : Open thread.queue) (stepped : threadStep thread = some (next, posts)) :
    Open next.queue := by
  cases threadStep_moves stepped with
  | @walked here arena after next at_ queue ran =>
    exact ⟨nofun, fun _ same => Queue.live.inj same ▸ walkStep_unlocked (opened.2 arena queue) ran⟩
  | _ => exact opened

private theorem open_put {system : System} (unblocked : Unblocked system)
    (held : system.at_ index = some old) (thread : Thread) (opens : Open old.queue → Open thread.queue) :
    ∀ place other, (system.put index thread).at_ place = some other → Open other.queue := by
  have others : ∀ place other, place ≠ index → system.at_ place = some other → Open other.queue :=
    fun place other _ found => unblocked.queues place other found
  exact forall_put held (opens (unblocked.queues index old held)) others

/-- `destroy_workers` takes no lock that it keeps, and a healthy tracker is not refused. -/
theorem unblocked_advance {system : System} (unblocked : Unblocked system)
    (healthy : Unfailing system .destroy) (advance : Advance system next) : Unblocked next := by
  cases advance with
  | refused at_ off => exact nomatch off.symm.trans (healthy at_)
  | begun | unflagged | told | unwaited | waited | acknowledged | unemptied | joined | returned =>
    exact ⟨unblocked.queues, nofun⟩
  | flagged at_ held | woken at_ held | freed at_ held =>
    exact ⟨open_put unblocked held _ id, nofun⟩
  | emptied at_ held => exact ⟨open_put unblocked held _ fun _ => ⟨nofun, nofun⟩, nofun⟩

theorem unblocked_step {system : System} (unblocked : Unblocked system) (gives : Unfailing system event)
    (stepped : step system event = some next) : Unblocked next := by
  cases event with
  | work index =>
    obtain ⟨old, held, ran⟩ := Option.bind_eq_some_iff.mp stepped
    obtain ⟨⟨thread, posts⟩, moved, rfl⟩ := Option.map_eq_some_iff.mp ran
    exact ⟨open_put unblocked held thread fun opened => open_threadStep opened moved,
      unblocked.accepted⟩
  | destroy => exact unblocked_advance unblocked gives (destroyStep_advance stepped)
  | enqueued index arena posted =>
    obtain ⟨old, held, ran⟩ := Option.bind_eq_some_iff.mp stepped
    split at ran
    · split at ran
      · obtain rfl := Option.some.inj ran
        exact ⟨open_put unblocked held _ fun _ => ⟨nofun, fun _ same => Queue.live.inj same ▸ gives⟩,
          unblocked.accepted⟩
      · cases ran
    · cases ran
    · cases ran

theorem orderly_of_unblocked {system : System} (sound : Sound system) (unblocked : Unblocked system) :
    Orderly system := by
  refine ⟨safe_of_sound sound, fun stuck => ?_⟩
  rcases finishes sound stuck with past | refused | ⟨index, thread, held, at_, _, halted⟩
  · exact past
  · exact absurd refused unblocked.accepted
  · obtain ⟨there, unlocked⟩ := unblocked.queues index thread held
    rcases halted with missing | ⟨arena, live, _, locked⟩
    · exact absurd missing there
    · exact nomatch locked.symm.trans (unlocked arena live)

theorem unblocked_start {system : System} (started : Started system) (equipped : Equipped system) :
    Unblocked system := by
  refine ⟨fun index thread held => ?_, fun refused => nomatch started.before.symm.trans refused⟩
  obtain ⟨arena, live, unlocked⟩ := equipped index thread held
  rw [live]
  exact ⟨nofun, fun _ same => Queue.live.inj same ▸ unlocked⟩

/-! ## Every run ends -/

/-- The offset of the block at an index. -/
def offsetAt (chain : List ArenaBlock) (index : Nat) : Nat := (chain[index]?.map ArenaBlock.offset).getD 0

/-- The steps a walk has before it, at most. -/
def walkRank (chain : List ArenaBlock) : ReactorRaces.Place → Nat
  | .waiting => 0
  | .atBlock index => blocksRank (chain.drop index) + 2
  | .reading index readOffset =>
    2 * (offsetAt chain index - readOffset) + blocksRank (chain.drop (index + 1)) + 4
  | .running index readOffset =>
    2 * (offsetAt chain index - (readOffset + slotSize)) + blocksRank (chain.drop (index + 1)) + 5
  | .leaving index => blocksRank (chain.drop (index + 1)) + 3
  | .resetting => 1

private theorem blocksRank_drop (here : chain[index]? = some block) :
    blocksRank (chain.drop index) = 2 * offsetAt chain index + 3 + blocksRank (chain.drop (index + 1)) := by
  obtain ⟨inside, same⟩ := List.getElem?_eq_some_iff.mp here
  rw [List.drop_eq_getElem_cons inside, same]
  simp [blocksRank, offsetAt, here]

/-- Each step of a walk leaves fewer before it, and a walk never has more before
it on a chain that was reset. -/
theorem walkStep_rank (walked : walkStep arena at_ = some (after, next)) :
    walkRank after.blocks.chain next < walkRank arena.blocks.chain at_ ∧
      blocksRank after.blocks.chain ≤ blocksRank arena.blocks.chain := by
  cases at_ with
  | waiting => cases walked
  | atBlock index =>
    obtain ⟨block, here, same⟩ := Option.map_eq_some_iff.mp walked
    obtain ⟨rfl, rfl⟩ := Prod.mk.inj same
    refine ⟨?_, Nat.le_refl _⟩
    have before : walkRank arena.blocks.chain (.atBlock index) =
        2 * offsetAt arena.blocks.chain index + 3 + blocksRank (arena.blocks.chain.drop (index + 1)) + 2 :=
      congrArg (· + 2) (blocksRank_drop here)
    rw [before]
    by_cases wiped : block.isWiped = true
    · rw [if_pos wiped, walkRank]
      omega
    · rw [if_neg wiped, walkRank]
      omega
  | reading index readOffset =>
    obtain ⟨block, here, same⟩ := Option.map_eq_some_iff.mp walked
    obtain ⟨rfl, rfl⟩ := Prod.mk.inj same
    refine ⟨?_, Nat.le_refl _⟩
    have offset : offsetAt arena.blocks.chain index = block.offset := by simp [offsetAt, here]
    have positive := slotSize_pos
    by_cases more : readOffset < block.offset
    · rw [if_pos more, walkRank, walkRank, offset]
      omega
    · rw [if_neg more, walkRank, walkRank]
      omega
  | running index readOffset =>
    obtain ⟨block, here, same⟩ := Option.map_eq_some_iff.mp walked
    obtain ⟨rfl, rfl⟩ := Prod.mk.inj same
    refine ⟨?_, Nat.le_refl _⟩
    simp only [walkRank]
    omega
  | leaving index =>
    obtain ⟨rfl, rfl⟩ := Prod.mk.inj (Option.some.inj walked)
    refine ⟨?_, Nat.le_refl _⟩
    by_cases more : index + 1 < arena.blocks.chain.length
    · rw [if_pos more, walkRank, walkRank]
      omega
    · rw [if_neg more, walkRank, walkRank]
      omega
  | resetting =>
    obtain ⟨reset, ran, returned⟩ := Option.bind_eq_some_iff.mp walked
    obtain ⟨other, rfl, same⟩ := Option.map_eq_some_iff.mp returned
    obtain ⟨rfl, rfl⟩ := Prod.mk.inj same
    obtain ⟨_, emptied⟩ := arenaReset_cases ran
    obtain rfl := Option.some.inj emptied
    refine ⟨Nat.one_pos, ?_⟩
    rw [Arena.emptied, rewind_chain, chain_map, blocksRank, blocksRank, List.map_map]
    apply List.sum_le_sum
    intro block _
    simp only [Function.comp_apply, internalBlockShred, if_true]
    omega

/-- The steps a thread has before it until it is back at `sem_wait` or has
ended, at most. -/
def placeRank (queue : Queue) : Place → Nat
  | .entering => 6
  | .top => 5
  | .sleeping => 4
  | .woken => passRank queue + 7
  | .walking at_ =>
    match queue with
    | .live arena => walkRank arena.blocks.chain at_ + 5
    | .missing | .destroyed => 5
  | .left => 3
  | .posting => 2
  | .returning => 1
  | .ended => 0

/-- The steps a thread has before it, at most: a pass for each time it is woken,
the one time by `destroy_workers` included. -/
def threadRank (thread : Thread) : Nat :=
  (thread.sem + (!thread.notified).toNat) * (passRank thread.queue + 4) +
    placeRank thread.queue thread.place

/-- The steps `destroy_workers` has before it, at most. -/
def destroyerRank (count : Nat) : Destroyer → Nat
  | .before => 6 * count + 4
  | .flagging index => 2 * (count - index) + 4 * count + 3
  | .waking index => 2 * (count - index) + 4 * count + 2
  | .waiting index => (count - index) + 3 * count + 2
  | .emptying index => 3 * (count - index) + 1
  | .joining index => 3 * (count - index)
  | .freeing index => 3 * (count - index) - 1
  | .refused | .returned => 0

/-- The steps that all of them have before them, at most. -/
def systemRank (system : System) : Nat :=
  total threadRank system.workers + destroyerRank system.workers.length system.destroyer

/-- A step that neither wakes the thread nor changes its queue lowers its rank if
it lowers the rank of its place. -/
private theorem threadRank_lt {thread next : Thread} (sem : next.sem = thread.sem)
    (notified : next.notified = thread.notified)
    (queue : passRank next.queue ≤ passRank thread.queue)
    (place : placeRank next.queue next.place < placeRank thread.queue thread.place) :
    threadRank next < threadRank thread := by
  rw [threadRank, threadRank, sem, notified]
  exact Nat.add_lt_add_of_le_of_lt (Nat.mul_le_mul_left _ (Nat.add_le_add_right queue 4)) place

theorem placeRank_afterWalk (arena : Arena) (next : ReactorRaces.Place) :
    placeRank (.live arena) (afterWalk next) = walkRank arena.blocks.chain next + 5 := by
  cases next <;> rfl

theorem threadStep_rank (stepped : threadStep thread = some (next, posts)) :
    threadRank next < threadRank thread := by
  cases threadStep_moves stepped with
  | turnedAway at_ | entered at_ | stopped at_ | asleep at_ _ | left at_ | posted at_ | ended at_ =>
    refine threadRank_lt (by rfl) (by rfl) (by exact Nat.le_refl _) ?_
    rw [at_]
    simp [placeRank]
  | stoppedAwake at_ =>
    refine threadRank_lt (by rfl) (by rfl) (by exact Nat.le_refl _) ?_
    rw [at_]
    simp only [placeRank]
    omega
  | awake at_ up =>
    -- the pass that it was woken for was counted before
    have split_ : thread.sem + (!thread.notified).toNat =
        (thread.sem - 1 + (!thread.notified).toNat) + 1 := by omega
    simp only [threadRank, at_, placeRank]
    rw [split_, Nat.succ_mul]
    omega
  | started at_ =>
    refine threadRank_lt (by rfl) (by rfl) (by exact Nat.le_refl _) ?_
    rw [at_]
    cases thread.queue <;> simp [placeRank, passRank, walkRank]
  | walked at_ queue ran =>
    obtain ⟨lower, pass⟩ := walkStep_rank ran
    refine threadRank_lt (by rfl) (by rfl) ?_ ?_
    · rw [queue]
      exact Nat.add_le_add_right pass 2
    · rw [at_, queue, placeRank_afterWalk]
      exact Nat.add_lt_add_right lower 5

private theorem put_length (system : System) (index : Nat) (thread : Thread) :
    (system.put index thread).workers.length = system.workers.length :=
  List.length_set

/-- Where a change of one thread and the move of `destroy_workers` lower one of
the two ranks and raise neither, they lower the sum. -/
private theorem systemRank_put {system next : System} (held : system.at_ index = some old)
    (thread : Thread) (workers : next.workers = (system.put index thread).workers)
    (lower : threadRank thread + destroyerRank system.workers.length next.destroyer <
      threadRank old + destroyerRank system.workers.length system.destroyer) :
    systemRank next < systemRank system := by
  have sum := total_set threadRank (at_eq_some.mp held) thread
  rw [systemRank, systemRank, workers, put_length]
  simp only [System.put]
  omega

private theorem systemRank_move {system next : System} (workers : next.workers = system.workers)
    (lower : destroyerRank system.workers.length next.destroyer <
      destroyerRank system.workers.length system.destroyer) : systemRank next < systemRank system := by
  rw [systemRank, systemRank, workers]
  exact Nat.add_lt_add_left lower _

theorem systemRank_advance {system : System} (sound : Sound system) (advance : Advance system next) :
    systemRank next < systemRank system := by
  have inside : ∀ {index entry}, system.workers[index]? = some entry → index < system.workers.length :=
    fun found => (List.getElem?_eq_some_iff.mp found).1
  cases advance with
  | begun at_ | refused at_ _ =>
    refine systemRank_move rfl ?_
    rw [at_]
    simp only [destroyerRank]
    omega
  | unflagged at_ entry | unwaited at_ entry | waited at_ entry _ | unemptied at_ entry =>
    refine systemRank_move rfl ?_
    have := inside entry
    rw [at_]
    simp only [destroyerRank]
    omega
  | told at_ past | acknowledged at_ past | returned at_ past =>
    refine systemRank_move rfl ?_
    rw [at_]
    simp only [destroyerRank]
    omega
  | joined at_ held _ =>
    refine systemRank_move rfl ?_
    have := inside (at_eq_some.mp held)
    rw [at_]
    simp only [destroyerRank]
    omega
  | @flagged index w at_ held =>
    refine systemRank_put held { w with shutdown := true } rfl ?_
    rw [at_]
    exact Nat.add_lt_add_left (by simp only [destroyerRank]; omega) _
  | @woken index w at_ held =>
    have untold := (sound.told index w held).not.mpr (by simp [at_, Told])
    refine systemRank_put held { w with sem := w.sem + 1, notified := true } rfl ?_
    have := inside (at_eq_some.mp held)
    -- the time it is woken by this was counted already
    have same : threadRank { w with sem := w.sem + 1, notified := true } = threadRank w := by
      simp [threadRank, Bool.eq_false_iff.mpr untold]
    rw [same, at_]
    exact Nat.add_lt_add_left (by simp only [destroyerRank]; omega) _
  | @emptied index w at_ held =>
    refine systemRank_put held { w with queue := .destroyed } rfl ?_
    have := inside (at_eq_some.mp held)
    have place : placeRank .destroyed w.place = placeRank w.queue w.place := by
      rcases (acknowledged sound (by rw [at_]; trivial) held).2 with gone | gone <;> rw [gone] <;> rfl
    have lower : threadRank { w with queue := .destroyed } ≤ threadRank w := by
      rw [threadRank, threadRank, place]
      exact Nat.add_le_add_right (Nat.mul_le_mul_left _ (Nat.add_le_add_right (Nat.zero_le _) 4)) _
    rw [at_]
    exact Nat.add_lt_add_of_le_of_lt lower (by simp only [destroyerRank]; omega)
  | @freed index w at_ held freed =>
    refine systemRank_put held { w with freed } rfl ?_
    have := inside (at_eq_some.mp held)
    rw [at_]
    exact Nat.add_lt_add_left (by simp only [destroyerRank]; omega) _

/-- A step of a worker or of `destroy_workers` lowers the rank. -/
theorem systemRank_step {system : System} (sound : Sound system) (own : OwnStep event)
    (stepped : step system event = some next) : systemRank next < systemRank system := by
  rcases own with rfl | ⟨index, rfl⟩
  · exact systemRank_advance sound (destroyStep_advance stepped)
  · obtain ⟨old, held, ran⟩ := Option.bind_eq_some_iff.mp stepped
    obtain ⟨⟨thread, posts⟩, moved, rfl⟩ := Option.map_eq_some_iff.mp ran
    exact systemRank_put held thread rfl (Nat.add_lt_add_right (threadStep_rank moved) _)

/-- From whatever places the threads of a pool are in, with whatever semaphores,
every state that `destroy_workers` and they reach is safe. As long as the locks
of the queues come back every state is orderly too, and apart from what others
enqueue they reach only so many. -/
theorem shutdown_orderly (started : Started system) (events : List Event) :
    Throughout step Safe system events ∧
      (Equipped system → EachStep step Unfailing system events →
        Throughout step Orderly system events) ∧
      ((∀ event ∈ events, OwnStep event) → (exec step system events).isSome →
        events.length ≤ systemRank system) := by
  have sound := sound_start started
  refine ⟨?_, fun equipped unfailing => ?_, fun own returned => ?_⟩
  · exact throughout_mono (fun _ sound => safe_of_sound sound)
      (throughout_invariant (fun _ _ _ sound taken => sound_step sound taken) sound events)
  · have both : Throughout step (fun system => Sound system ∧ Unblocked system) system events :=
      throughout_of_each_step
        (fun _ _ _ kept gives taken => ⟨sound_step kept.1 taken, unblocked_step kept.2 gives taken⟩)
        ⟨sound, unblocked_start started equipped⟩ unfailing
    exact throughout_mono (fun _ kept => orderly_of_unblocked kept.1 kept.2) both
  · obtain ⟨final, ran⟩ := Option.isSome_iff_exists.mp returned
    have lower : ∀ state event next, Sound state → OwnStep event → step state event = some next →
        systemRank next < systemRank state :=
      fun _ _ _ sound own taken => systemRank_step sound own taken
    exact exec_length_le (fun _ _ _ sound _ taken => sound_step sound taken) lower sound ran own

/-- A worker that sleeps, an index without one, and a worker that is to reset
its queue. -/
def twoWorkers : System :=
  { workersAt := 64
    workers :=
      [some ⟨1024, 1, .live ⟨false, ⟨[], ⟨8192, 0, true, none, 0, 1024, Library.Bytes.zeros⟩, []⟩, 1024,
          false, false, true⟩, 0, true, false, .sleeping, false, 0, false⟩,
        none,
        some ⟨2048, 3, .live ⟨false, ⟨[], ⟨16384, 0, false, none, 0, 1024, Library.Bytes.zeros⟩, []⟩,
          1024, false, false, false⟩, 2, false, false, .walking .resetting, false, 0, false⟩]
    ackSem := 0
    tracker := zeroTracker
    memory := ⟨fun _ => 0, []⟩
    destroyer := .before }

/-- `destroy_workers` flags, the third worker resets its queue behind that, the
first is woken by the post, and someone enqueues once more in between. -/
def twoStopped : List Event :=
  [.destroy, .destroy, .destroy, .work 0, .destroy, .destroy, .work 2, .work 2, .destroy, .work 0,
    .enqueued 0 ⟨false, ⟨[], ⟨8192, 0, true, none, 96, 1024, Library.Bytes.zeros⟩, []⟩, 1024,
      false, false, false⟩ true,
    .work 0, .work 2, .destroy, .work 0, .destroy]

/-- The walk is reset behind the flag, and the sleeper is woken by the post. -/
theorem twoWorkers_orderly :
    Throughout step Safe twoWorkers twoStopped ∧ Throughout step Orderly twoWorkers twoStopped ∧
      (exec step twoWorkers twoStopped).isSome = true := by
  have started : Started twoWorkers := by
    refine ⟨rfl, rfl, fun index thread held => ?_⟩
    rcases index with _ | _ | _ | index
    · obtain rfl := Option.some.inj held
      exact ⟨⟨rfl, rfl⟩, rfl, ⟨rfl, nofun⟩, .inr (.inr (.inl rfl))⟩
    · cases held
    · obtain rfl := Option.some.inj held
      exact ⟨⟨rfl, rfl⟩, rfl, ⟨rfl, nofun⟩, .inr (.inr (.inr (.inr ⟨_, _, rfl, rfl, trivial⟩)))⟩
    · cases held
  have equipped : Equipped twoWorkers := by
    intro index thread held
    rcases index with _ | _ | _ | index
    · exact Option.some.inj held ▸ ⟨_, rfl, rfl⟩
    · cases held
    · exact Option.some.inj held ▸ ⟨_, rfl, rfl⟩
    · cases held
  obtain ⟨safe, orderly, _⟩ := shutdown_orderly started twoStopped
  exact ⟨safe, orderly equipped (by decide +kernel), by decide +kernel⟩

/-- A worker that sleeps, with a block of ten tasks and its semaphore up for them. -/
def fullQueue : System :=
  { workersAt := 64
    workers :=
      [some ⟨1024, 1, .live ⟨false, ⟨[], ⟨8192, 0, false, none, 960, 1024, Library.Bytes.zeros⟩, []⟩,
        1024, false, false, false⟩, 10, true, false, .sleeping, false, 0, false⟩]
    ackSem := 0
    tracker := zeroTracker
    memory := ⟨fun _ => 0, []⟩
    destroyer := .before }

/-- An eleventh task for which there is no memory: its `arena_alloc` keeps the lock. -/
def eleventh : Option Event :=
  (arenaAlloc ⟨false, ⟨[], ⟨8192, 0, false, none, 960, 1024, Library.Bytes.zeros⟩, []⟩, 1024, false,
    false, false⟩ sizeofTask none).map fun (arena, _) => .enqueued 0 arena false

/-- The worker wakes and runs the ten tasks, and `destroy_workers` is called. -/
def lockedOut : List Event :=
  eleventh.toList ++ List.replicate 25 (.work 0) ++ List.replicate 4 .destroy

/-- Where `destroy_workers` is, how many acknowledgements there are, and where each
worker is and whether somebody has the lock of its queue. -/
def standing (system : System) : Destroyer × Nat × List (Option (Place × Bool)) :=
  (system.destroyer, system.ackSem, system.workers.map fun worker => worker.map fun thread =>
    (thread.place, match thread.queue with | .live arena => arena.mutex | .missing | .destroyed => false))

/-- A worker that waits for its lock keeps `destroy_workers` waiting for it. -/
theorem stuck_of_standing {system : System}
    (here : standing system = (.waiting 0, 0, [some (.walking .resetting, true)])) : Stuck system := by
  obtain ⟨workersAt, workers, ackSem, tracker, memory, destroyer⟩ := system
  simp only [standing, Prod.mk.injEq] at here
  obtain ⟨rfl, rfl, here⟩ := here
  obtain ⟨worker, rfl, single⟩ := List.map_eq_singleton_iff.mp here
  obtain ⟨thread, rfl, both⟩ := Option.map_eq_some_iff.mp single
  obtain ⟨place, locked⟩ := Prod.mk.inj both
  refine ⟨rfl, fun index => ?_⟩
  cases index with
  | succ index => rfl
  | zero =>
    have idle : threadStep thread = none := by
      cases queue : thread.queue with
      | missing | destroyed => simp [threadStep, place, queue]
      | live arena =>
        have kept : arena.mutex = true := by simpa [queue] using locked
        simp [threadStep, place, queue, walkStep, arenaReset, kept]
    simp [step, System.at_, idle]

/-- The failed enqueue has kept the lock that the worker's `arena_reset` then waits
for, so it never posts and `destroy_workers` never passes its first wait. -/
theorem locked_out_never_finishes :
    Started fullQueue ∧ Equipped fullQueue ∧ (exec step fullQueue lockedOut).isSome = true ∧
      ¬ Throughout step Orderly fullQueue lockedOut := by
  have reached : (exec step fullQueue lockedOut).map standing =
      some (.waiting 0, 0, [some (.walking .resetting, true)]) := by decide +kernel
  obtain ⟨final, ran, here⟩ := Option.map_eq_some_iff.mp reached
  refine ⟨⟨rfl, rfl, fun index thread held => ?_⟩, fun index thread held => ?_, by rw [ran]; rfl,
    fun orderly => ?_⟩
  · cases index with
    | zero =>
      obtain rfl := Option.some.inj held
      exact ⟨⟨rfl, rfl⟩, rfl, ⟨rfl, nofun⟩, .inr (.inr (.inl rfl))⟩
    | succ index => cases held
  · cases index with
    | zero => exact Option.some.inj held ▸ ⟨_, rfl, rfl⟩
    | succ index => cases held
  · have past := (throughout_final orderly ran).finishes (stuck_of_standing here)
    rw [(Prod.mk.inj here).1] at past
    exact past

end ShapeQuake.ShutdownProofs
