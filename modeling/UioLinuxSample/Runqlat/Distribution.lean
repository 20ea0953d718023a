import UioLinuxSample.Runqlat.Effects
import UioLinuxSample.Runqlat.Latency

set_option autoImplicit false

/-! # Do the histogram and the sum describe the same samples?

`distribution_show` prints `latency_hist` and `sum_lat` together, as two views of the latencies
seen in the session. `latency_histogram_store` updates both, but `trace_pid_store` zeroes only
the histogram when it starts a session: the sum goes on from what the sessions before it have
left. From then on no list of samples fits both, and `distribution_describes_iff` says that
nothing else sets them apart.
-/

namespace UioLinuxSample.Runqlat

open Run

/-! ## Samples -/

/-- The histogram counts the samples, in milliseconds, bucket by bucket, and `sum_lat` is their
sum; both modulo `2^64`. -/
structure Describes (info : Info) (samples : List UInt64) : Prop where
  hist : ∀ i < latencyHistogramEntry,
    info.latencyHist i = UInt64.ofNat (samples.countP fun d => latencyIndex d = i)
  sum : info.sumLat = UInt64.ofNat (samples.map UInt64.toNat).sum

instance (info : Info) (samples : List UInt64) : Decidable (Describes info samples) :=
  decidable_of_iff
    ((∀ i < latencyHistogramEntry,
        info.latencyHist i = UInt64.ofNat (samples.countP fun d => latencyIndex d = i)) ∧
      info.sumLat = UInt64.ofNat (samples.map UInt64.toNat).sum)
    ⟨fun h => ⟨h.1, h.2⟩, fun h => ⟨h.hist, h.sum⟩⟩

/-- The samples that calls pass to `latency_histogram_store`. -/
def samplesOf (cs : List Call) : List UInt64 := (cs.filterMap Call.latency?).map (· / 1000000)

/-- The samples since the session started. -/
def sampled (samples : List UInt64) (info : Info) (e : Event) : List UInt64 :=
  if startsSession info e then [] else samples ++ samplesOf (calls info e)

theorem samplesOf_append (cs ds : List Call) :
    samplesOf (cs ++ ds) = samplesOf cs ++ samplesOf ds := by
  simp [samplesOf]

/-! ## One step -/

section Effect

variable {info info' : Info} {samples : List UInt64}

theorem Describes.of_same (h : Describes info samples)
    (hhist : info'.latencyHist = info.latencyHist) (hsum : info'.sumLat = info.sumLat) :
    Describes info' samples :=
  ⟨by rw [hhist]; exact h.hist, by rw [hsum]; exact h.sum⟩

/-- A stored latency is one more sample in both. -/
theorem Describes.store (h : Describes info samples) (delta : UInt64) :
    Describes (latencyHistogramStore info delta) (samples ++ [delta / 1000000]) where
  hist := by
    intro i hi
    show Function.update info.latencyHist (latencyIndex (delta / 1000000))
      (info.latencyHist (latencyIndex (delta / 1000000)) + 1) i = _
    rw [List.countP_append, List.countP_singleton, UInt64.ofNat_add]
    by_cases hidx : latencyIndex (delta / 1000000) = i
    · subst hidx
      rw [Function.update_self, h.hist _ hi]
      simp
    · rw [Function.update_of_ne (Ne.symm hidx), h.hist i hi]
      simp [hidx]
  sum := by
    show info.sumLat + delta / 1000000 = _
    rw [h.sum, List.map_append, List.sum_append, UInt64.ofNat_add, List.map_singleton,
      List.sum_singleton, UInt64.ofNat_toNat]

theorem recordTask_distribution (info : Info) (p : TaskStruct) (runtime : UInt64) :
    (recordTask info p runtime).latencyHist = info.latencyHist
      ∧ (recordTask info p runtime).sumLat = info.sumLat := by
  unfold recordTask
  dsimp only
  split <;> exact ⟨rfl, rfl⟩

/-- What `record_task_commit` does after storing the latency leaves the distribution. -/
theorem recordTaskCommit_distribution (info : Info) (latency : UInt64) :
    (recordTaskCommit info latency).2.latencyHist
        = (latencyHistogramStore info latency).latencyHist
      ∧ (recordTaskCommit info latency).2.sumLat
        = (latencyHistogramStore info latency).sumLat := by
  unfold recordTaskCommit keepTrace
  dsimp only
  split
  · exact ⟨rfl, rfl⟩
  · split
    · split <;> exact ⟨rfl, rfl⟩
    · exact ⟨rfl, rfl⟩

/-- Every chain of calls adds its samples to both. -/
theorem Describes.effect {cs : List Call} (heff : Effect info cs info')
    (h : Describes info samples) : Describes info' (samples ++ samplesOf cs) := by
  induction heff generalizing samples with
  | control hsame =>
      rw [show samplesOf [] = [] from rfl, List.append_nil]
      exact h.of_same hsame.latencyHist hsame.sumLat
  | recordTask info p runtime =>
      obtain ⟨hhist, hsum⟩ := recordTask_distribution info p runtime
      rw [show samplesOf [Call.recordTask info p runtime] = [] from rfl, List.append_nil]
      exact h.of_same hhist hsum
  | recordTaskCommit info latency =>
      obtain ⟨hhist, hsum⟩ := recordTaskCommit_distribution info latency
      exact (h.store latency).of_same hhist hsum
  | trans _ _ ih ih' =>
      rw [samplesOf_append, ← List.append_assoc]
      exact ih' (ih h)

end Effect

/-- Right after the start of a session the histogram is empty, and `sum_lat` is what it was. -/
theorem describes_start_iff (info : Info) {e : Event} (h : startsSession info e = true) :
    Describes (step info e) [] ↔ info.sumLat = 0 := by
  cases e with
  | tracePid pid =>
      rcases tracePid_cases info pid with ⟨-, hno⟩ | ⟨-, hno⟩ | ⟨new, -, hstart, -⟩
      · rw [h] at hno
        cases hno
      · rw [h] at hno
        cases hno
      · show Describes (tracePidStore info pid).2 [] ↔ _
        rw [hstart]
        refine ⟨fun hd => hd.sum, fun hsum => ⟨fun i hi => ?_, hsum⟩⟩
        exact if_pos hi
  | wakeup e => cases h
  | schedSwitch e => cases h
  | migrate e => cases h
  | threshold threshold => cases h

/-! ## Whole runs -/

/-- The tracer with the samples of its session. -/
def sampledStep : Info × List UInt64 → Event → Info × List UInt64 := observe step sampled

/-- The state that the step reaches describes the samples of its session. -/
def StillDescribes (w : Info × List UInt64) (e : Event) : Prop :=
  Describes (sampledStep w e).1 (sampledStep w e).2

instance (w : Info × List UInt64) (e : Event) : Decidable (StillDescribes w e) :=
  inferInstanceAs (Decidable (Describes _ _))

/-- A session starts with nothing in `sum_lat`. -/
def StartsFromZero (info : Info) (e : Event) : Prop :=
  startsSession info e = true → info.sumLat = 0

theorem stillDescribes_iff (w : Info × List UInt64) (e : Event) (h : Describes w.1 w.2) :
    StillDescribes w e ↔ StartsFromZero w.1 e := by
  unfold StillDescribes StartsFromZero
  show Describes (step w.1 e) (if startsSession w.1 e then [] else w.2 ++ _) ↔ _
  cases hstart : startsSession w.1 e with
  | true =>
      rw [if_pos rfl, describes_start_iff w.1 hstart]
      exact ⟨fun hsum _ => hsum, fun hsum => hsum rfl⟩
  | false =>
      rw [if_neg Bool.false_ne_true]
      exact iff_of_true (h.effect (step_effect hstart)) fun htrue => by cases htrue

/-- **When the distribution describes one list of samples.** In every run, histogram and sum
describe the samples of the session in every state reached, if and only if each session starts
with `sum_lat = 0`, that is, the samples of the sessions before it add up to nothing. -/
theorem distribution_describes_iff (es : List Event) :
    Steps sampledStep StillDescribes (Info.init, []) es ↔ Steps step StartsFromZero Info.init es := by
  have hhistory : Steps sampledStep (fun w e => StartsFromZero w.1 e) (Info.init, []) es
      ↔ Steps step StartsFromZero Info.init es := steps_observe_iff (Info.init, []) es
  rw [← hhistory]
  exact Steps.iff_of_kept (fun _ _ _ hd => hd) stillDescribes_iff ⟨fun _ _ => rfl, rfl⟩

/-- Pid 7 waits 2 ms in a first session, and a second session is started. -/
def twoSessions : List Event :=
  [.tracePid (some 7), .wakeup ⟨1, runnable 7⟩,
    .schedSwitch ⟨2000001, 0, runnable 1, runnable 7⟩, .tracePid (some (-1)), .tracePid (some 7)]

/-- The new session has counted nothing and begins with a sum of 2 ms. -/
theorem distribution_keeps_old_sum :
    ¬ Steps sampledStep StillDescribes (Info.init, []) twoSessions := by
  decide +kernel

end UioLinuxSample.Runqlat
