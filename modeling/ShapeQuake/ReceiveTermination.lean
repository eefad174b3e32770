import Mathlib.Data.Nat.Find
import Mathlib.Data.List.Range
import ShapeQuake.ServerNet

/-! Whether the receive loop of `sq_recv_header` ends, over an infinite sequence
of `recv` outcomes. The loop leaves at the end of the stream and where a call
would block, and it goes round again after an interruption, but it also goes
round after every other error, with no branch of its own for it. -/
namespace ShapeQuake.ReceiveTermination
open ServerNet

section
variable (stream : List UInt8) (deliveries : Nat → Delivery)

/-- The outcomes of the first so many calls. -/
def calls (count : Nat) : List Delivery := (List.range count).map deliveries

/-- The loop over the outcomes of the first so many calls, on a new connection. -/
def loopAfter (count : Nat) : Option (List UInt8 × Option Status × Net) :=
  recvHeaderLoop (accepted stream) [] (calls deliveries count)

/-- How many bytes a call delivers from a stream that does not end. -/
def size : Delivery → Nat
  | .chunk more => more + 1
  | _ => 0

/-- What the first so many calls deliver together. -/
def delivered : Nat → Nat
  | 0 => 0
  | count + 1 => delivered count + size (deliveries count)

/-- The call meets the end of the stream, if nothing has ended the loop before. -/
def AtEnd (count : Nat) : Prop :=
  ∃ more, deliveries count = .chunk more ∧ stream.length ≤ delivered deliveries count

/-- The call meets the end of the stream or an error that is no interruption. -/
def FailureAt (count : Nat) : Prop :=
  AtEnd stream deliveries count ∨ deliveries count = .wouldBlock ∨ deliveries count = .fault

/-- The loop completes the header, or it returns a status other than success at
the first end of stream or error that is no interruption. -/
def Ends : Prop :=
  (∃ count bytes net, loopAfter stream deliveries count = some (bytes, none, net) ∧
      bytes.length = headerSize) ∨
    ∃ count bytes status net, loopAfter stream deliveries count = none ∧
      loopAfter stream deliveries (count + 1) = some (bytes, some status, net) ∧
      getCnd status ≠ Cnd.success.raw ∧ FailureAt stream deliveries count ∧
      ∀ earlier < count, ¬ FailureAt stream deliveries earlier

/-- The loop has a branch that leaves it at this call. -/
def Leaves (count : Nat) : Prop :=
  AtEnd stream deliveries count ∨ deliveries count = .wouldBlock

/-- The stream holds a header, and the calls before the first that would block
deliver as many bytes. -/
def HeaderArrives : Prop :=
  headerSize ≤ stream.length ∧
    ∃ count, headerSize ≤ delivered deliveries count ∧
      ∀ earlier < count, deliveries earlier ≠ .wouldBlock

/-- Every error without a branch of its own comes after a call that leaves the
loop, unless the header arrives all the same. -/
def NoFaultBefore : Prop :=
  HeaderArrives stream deliveries ∨
    ∀ count, deliveries count = .fault → ∃ earlier < count, Leaves stream deliveries earlier

/-- The header is complete after so many calls. -/
def Complete (count : Nat) : Prop :=
  headerSize ≤ stream.length ∧ headerSize ≤ delivered deliveries count

end

section
variable {stream : List UInt8} {deliveries : Nat → Delivery}

/-! ## The loop over its first calls -/

private theorem calls_succ (count : Nat) :
    calls deliveries (count + 1) = calls deliveries count ++ [deliveries count] := by
  simp [calls, List.range_succ]

private theorem calls_prefix (deliveries : Nat → Delivery) {first count : Nat} (le : first ≤ count) :
    ∃ rest, calls deliveries count = calls deliveries first ++ rest := by
  induction count, le using Nat.le_induction with
  | base => exact ⟨[], by simp⟩
  | succ count _ ih =>
    obtain ⟨rest, split_⟩ := ih
    exact ⟨rest ++ [deliveries count], by rw [calls_succ, split_, List.append_assoc]⟩

/-- The loop is still reading before each of the first so many calls. -/
def Reading (stream : List UInt8) (deliveries : Nat → Delivery) (count : Nat) : Prop :=
  ∀ earlier < count, ¬ Complete stream deliveries earlier ∧ ¬ Leaves stream deliveries earlier

/-- The client after so many bytes of the stream have been taken. -/
private def advanced (stream : List UInt8) (count : Nat) : Client :=
  ⟨stream.drop count, stream.take count, 0⟩

private theorem advance (first second : Nat) :
    stream.take first ++ (stream.drop first).take second = stream.take (first + second) := by
  rw [List.take_add]

/-- One call that neither completes nor leaves. -/
private theorem loop_call (short : ¬ Complete stream deliveries count)
    (stays : ¬ Leaves stream deliveries count) (rest : List Delivery) :
    recvHeaderLoop (advanced stream (min headerSize (delivered deliveries count)))
        (stream.take (min headerSize (delivered deliveries count))) (deliveries count :: rest) =
      recvHeaderLoop (advanced stream (min headerSize (delivered deliveries (count + 1))))
        (stream.take (min headerSize (delivered deliveries (count + 1)))) rest := by
  have missing : (stream.take (min headerSize (delivered deliveries count))).length < headerSize := by
    rw [Complete] at short
    rw [List.length_take]
    omega
  rw [recvHeaderLoop, if_pos missing]
  cases met : deliveries count with
  | chunk more =>
    have more_ : delivered deliveries count < stream.length := by
      by_contra none_
      exact stays (.inl ⟨more, met, Nat.not_lt.mp none_⟩)
    have below : delivered deliveries count < headerSize := by
      rw [Complete] at short
      omega
    have taken : (stream.take (min headerSize (delivered deliveries count))).length =
        delivered deliveries count := by
      rw [List.length_take]
      omega
    have left : stream.drop (min headerSize (delivered deliveries count)) ≠ [] := by
      rw [ne_eq, List.drop_eq_nil_iff]
      omega
    have next : min headerSize (delivered deliveries (count + 1)) =
        min headerSize (delivered deliveries count) +
          min (more + 1) (headerSize - delivered deliveries count) := by
      simp only [delivered, met, size]
      omega
    simp only [recv, advanced, if_neg left, taken, advance, List.drop_drop, next]
  | interrupted | fault =>
    have same : delivered deliveries (count + 1) = delivered deliveries count := by
      simp only [delivered, met, size, Nat.add_zero]
    simp only [recv, same]
  | wouldBlock => exact absurd (.inr met) stays

private theorem loop_reading (reading : Reading stream deliveries count) (rest : List Delivery) :
    recvHeaderLoop (accepted stream) [] (calls deliveries count ++ rest) =
      recvHeaderLoop (advanced stream (min headerSize (delivered deliveries count)))
        (stream.take (min headerSize (delivered deliveries count))) rest := by
  induction count generalizing rest with
  | zero => simp [calls, delivered, advanced, accepted]
  | succ count ih =>
    obtain ⟨short, stays⟩ := reading count (Nat.lt_succ_self _)
    rw [calls_succ, List.append_assoc, List.singleton_append,
      ih fun earlier before => reading earlier (Nat.lt_succ_of_lt before)]
    exact loop_call short stays rest

/-- While it reads, the loop waits for the next call. -/
private theorem loop_waits (reading : Reading stream deliveries count)
    (short : ¬ Complete stream deliveries count) : loopAfter stream deliveries count = none := by
  have ran := loop_reading reading []
  rw [List.append_nil] at ran
  rw [loopAfter, ran, recvHeaderLoop, if_pos]
  rw [Complete] at short
  rw [List.length_take]
  omega

private theorem loop_completes (reading : Reading stream deliveries count)
    (complete : Complete stream deliveries count) :
    ∃ net, loopAfter stream deliveries count = some (stream.take headerSize, none, net) := by
  have ran := loop_reading reading []
  rw [List.append_nil] at ran
  rw [loopAfter, ran, recvHeaderLoop, if_neg, Nat.min_eq_left complete.2]
  · exact ⟨_, rfl⟩
  · rw [List.length_take]
    obtain ⟨long, arrived⟩ := complete
    omega

private theorem loop_leaves (reading : Reading stream deliveries count)
    (short : ¬ Complete stream deliveries count) (leaves : Leaves stream deliveries count)
    (rest : List Delivery) :
    ∃ bytes status net, getCnd status ≠ Cnd.success.raw ∧
      recvHeaderLoop (accepted stream) [] (calls deliveries (count + 1) ++ rest) =
        some (bytes, some status, net) := by
  have missing : (stream.take (min headerSize (delivered deliveries count))).length < headerSize := by
    rw [Complete] at short
    rw [List.length_take]
    omega
  rw [calls_succ, List.append_assoc, List.singleton_append, loop_reading reading, recvHeaderLoop,
    if_pos missing]
  rcases leaves with ⟨more, met, ended⟩ | met
  · have empty : stream.drop (min headerSize (delivered deliveries count)) = [] := by
      rw [Complete] at short
      rw [List.drop_eq_nil_iff]
      omega
    simp only [met, recv, advanced, empty, ↓reduceIte]
    refine ⟨_, _, _, ?_, rfl⟩
    exact getCnd_ne nofun
  · simp only [met, recv]
    refine ⟨_, _, _, ?_, rfl⟩
    exact getCnd_ne nofun

/-! ## Where the loop ends -/

private theorem delivered_mono {first count : Nat} (le : first ≤ count) :
    delivered deliveries first ≤ delivered deliveries count := by
  induction count, le using Nat.le_induction with
  | base => exact Nat.le_refl _
  | succ count _ ih => exact Nat.le_trans ih (Nat.le_add_right _ _)

private theorem ends_of_complete (reading : Reading stream deliveries count)
    (complete : Complete stream deliveries count) : Ends stream deliveries := by
  obtain ⟨net, ran⟩ := loop_completes reading complete
  refine .inl ⟨count, _, net, ran, ?_⟩
  rw [List.length_take]
  exact Nat.min_eq_left complete.1

private theorem arrives_of_complete (reading : Reading stream deliveries count)
    (complete : Complete stream deliveries count) : HeaderArrives stream deliveries :=
  ⟨complete.1, count, complete.2, fun earlier before blocks => (reading earlier before).2 (.inr blocks)⟩

/-- The header does not arrive when the loop leaves before it is complete. -/
private theorem not_arrives (short : ¬ Complete stream deliveries count)
    (leaves : Leaves stream deliveries count) : ¬ HeaderArrives stream deliveries := by
  rintro ⟨long, arrived, enough, unblocked⟩
  rcases leaves with ⟨more, met, ended⟩ | blocks
  · exact short ⟨long, Nat.le_trans long ended⟩
  · by_cases before : arrived ≤ count
    · exact short ⟨long, Nat.le_trans enough (delivered_mono before)⟩
    · exact unblocked count (Nat.lt_of_not_le before) blocks

/-- Where the loop leaves before the header is complete, it has ended as it
should exactly if it has met no other error. -/
private theorem ends_iff_at_leave (reading : Reading stream deliveries count)
    (short : ¬ Complete stream deliveries count) (leaves : Leaves stream deliveries count) :
    Ends stream deliveries ↔ NoFaultBefore stream deliveries := by
  have returned (rest : List Delivery) := loop_leaves reading short leaves rest
  have waits (earlier : Nat) (before : earlier ≤ count) : loopAfter stream deliveries earlier = none := by
    by_cases same : earlier = count
    · rw [same]
      exact loop_waits reading short
    · have lt : earlier < count := by omega
      exact loop_waits (fun first le => reading first (Nat.lt_trans le lt)) (reading earlier lt).1
  have after (later : Nat) (beyond : count < later) : ∃ bytes status net,
      loopAfter stream deliveries later = some (bytes, some status, net) := by
    obtain ⟨rest, split_⟩ := calls_prefix deliveries (Nat.succ_le_of_lt beyond)
    obtain ⟨bytes, status, net, _, ran⟩ := returned rest
    exact ⟨bytes, status, net, by rw [loopAfter, split_, ran]⟩
  constructor
  · rintro (⟨other, bytes, net, ran, _⟩ | ⟨other, bytes, status, net, waiting, ran, _, _, first⟩)
    · by_cases before : other ≤ count
      · rw [waits other before] at ran
        cases ran
      · obtain ⟨_, _, _, left⟩ := after other (Nat.lt_of_not_le before)
        rw [left] at ran
        cases ran
    · have here : other = count := by
        by_contra different
        rcases Nat.lt_or_gt_of_ne different with before | beyond
        · rw [waits (other + 1) before] at ran
          cases ran
        · obtain ⟨_, _, _, left⟩ := after other beyond
          rw [left] at waiting
          cases waiting
      subst here
      refine .inr fun fault met => ?_
      rcases Nat.lt_trichotomy fault other with before | same | beyond
      · exact absurd (.inr (.inr met)) (first fault before)
      · subst same
        rcases leaves with ⟨more, chunk, _⟩ | blocks
        · exact nomatch met.symm.trans chunk
        · exact nomatch met.symm.trans blocks
      · exact ⟨other, beyond, leaves⟩
  · rintro (arrives | faults)
    · exact absurd arrives (not_arrives short leaves)
    · obtain ⟨bytes, status, net, failed, ran⟩ := returned []
      rw [List.append_nil] at ran
      refine .inr ⟨count, bytes, status, net, waits count (Nat.le_refl _), ran, failed, ?_, ?_⟩
      · exact leaves.imp_right .inl
      · rintro earlier before (ended | blocks | met)
        · exact (reading earlier before).2 (.inl ended)
        · exact (reading earlier before).2 (.inr blocks)
        · obtain ⟨first, sooner, left⟩ := faults earlier met
          exact (reading first (Nat.lt_trans sooner before)).2 left

/-- A call that neither completes nor leaves delivers no more than a header. -/
private theorem delivered_bounded (reading : ∀ count, Reading stream deliveries count) (count : Nat) :
    ¬ ∃ more, deliveries count = .chunk more ∧ headerSize ≤ delivered deliveries count := by
  rintro ⟨more, met, enough⟩
  obtain ⟨short, stays⟩ := reading (count + 1) count (Nat.lt_succ_self _)
  by_cases long : headerSize ≤ stream.length
  · exact short ⟨long, enough⟩
  · exact stays (.inl ⟨more, met, by omega⟩)

/-- Calls without end that neither complete nor leave deliver bytes only so
often, so where interruptions are finite there is another error. -/
private theorem fault_met (reading : ∀ count, Reading stream deliveries count)
    (finite : ∀ count, bound ≤ count → deliveries count ≠ .interrupted) :
    ∃ count, deliveries count = .fault := by
  by_contra none_
  have chunks (count : Nat) (late : bound ≤ count) : ∃ more, deliveries count = .chunk more := by
    cases met : deliveries count with
    | chunk more => exact ⟨more, rfl⟩
    | interrupted => exact absurd met (finite count late)
    | wouldBlock => exact absurd (.inr met) (reading (count + 1) count (Nat.lt_succ_self _)).2
    | fault => exact absurd ⟨count, met⟩ none_
  have grows (count : Nat) : count ≤ delivered deliveries (bound + count) := by
    induction count with
    | zero => exact Nat.zero_le _
    | succ count ih =>
      obtain ⟨more, met⟩ := chunks (bound + count) (Nat.le_add_right _ _)
      rw [← Nat.add_assoc]
      simp only [delivered, met, size]
      omega
  obtain ⟨more, met⟩ := chunks (bound + headerSize) (Nat.le_add_right _ _)
  exact delivered_bounded reading _ ⟨more, met, grows headerSize⟩

/-- Over every infinite sequence of outcomes with finitely many interruptions
the receive loop ends as it should exactly when no call fails in a way the loop
does not look for before it leaves, or the header arrives all the same. -/
theorem loop_ends_iff_no_fault_before
    (finite : ∀ count, bound ≤ count → deliveries count ≠ .interrupted) :
    Ends stream deliveries ↔ NoFaultBefore stream deliveries := by
  classical
  by_cases ending : ∃ count, Complete stream deliveries count ∨ Leaves stream deliveries count
  · have reading : Reading stream deliveries (Nat.find ending) :=
      fun earlier before => not_or.mp (Nat.find_min ending before)
    by_cases complete : Complete stream deliveries (Nat.find ending)
    · exact iff_of_true (ends_of_complete reading complete)
        (.inl (arrives_of_complete reading complete))
    · exact ends_iff_at_leave reading complete ((Nat.find_spec ending).resolve_left complete)
  · have reading (count : Nat) : Reading stream deliveries count :=
      fun earlier _ => not_or.mp fun here => ending ⟨earlier, here⟩
    have waits (count : Nat) : loopAfter stream deliveries count = none :=
      loop_waits (reading count) (reading (count + 1) count (Nat.lt_succ_self _)).1
    refine iff_of_false ?_ ?_
    · rintro (⟨count, bytes, net, ran, _⟩ | ⟨count, bytes, status, net, _, ran, _⟩)
      · rw [waits count] at ran
        cases ran
      · rw [waits (count + 1)] at ran
        cases ran
    · rintro (⟨long, count, enough, _⟩ | faults)
      · exact ending ⟨count, .inl ⟨long, enough⟩⟩
      · obtain ⟨count, met⟩ := fault_met reading finite
        obtain ⟨earlier, _, leaves⟩ := faults count met
        exact ending ⟨earlier, .inr leaves⟩

end

/-- Twelve bytes, one at a time, with an interruption behind the first: the header
is completed. -/
theorem interrupted_once_ends :
    Ends (List.replicate 12 0) (fun count => if count = 1 then .interrupted else .chunk 0) := by
  have finite : ∀ count, 2 ≤ count →
      (fun count => if count = 1 then .interrupted else .chunk 0 : Nat → Delivery) count ≠
        .interrupted := by
    intro count late
    have other : count ≠ 1 := by omega
    simp [other]
  refine (loop_ends_iff_no_fault_before finite).mpr (.inl ⟨by decide, 13, by decide, ?_⟩)
  intro earlier _
  by_cases here : earlier = 1 <;> simp [here]

/-- Every call fails with an error such as a reset connection: the loop never ends. -/
theorem failing_calls_never_end :
    ¬ ∀ stream deliveries, (∃ bound, ∀ count, bound ≤ count → deliveries count ≠ .interrupted) →
      Ends stream deliveries := by
  intro always
  have reading (count : Nat) : Reading [] (fun _ => .fault) count := by
    rintro earlier _
    refine ⟨fun complete => absurd complete.1 (by decide), ?_⟩
    rintro (⟨more, chunk, _⟩ | blocks)
    · cases chunk
    · cases blocks
  have waits (count : Nat) : loopAfter [] (fun _ => .fault) count = none :=
    loop_waits (reading count) fun complete => absurd complete.1 (by decide)
  rcases always [] (fun _ => .fault) ⟨0, nofun⟩ with
    ⟨count, bytes, net, ran, _⟩ | ⟨count, bytes, status, net, _, ran, _⟩
  · rw [waits count] at ran
    cases ran
  · rw [waits (count + 1)] at ran
    cases ran

end ShapeQuake.ReceiveTermination
