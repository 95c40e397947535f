import Peep.Library.Ring
import Peep.Playback.Go

/-!
# What is played of a recording

A recording of whole records, in a ring that is sorted by time. What should be played of it are the
records from the start time on and before the end time, in the order of time, and then the loop
should end.

The code compares times as doubles. Below `2 ^ 33` seconds different times are different doubles, in
the same order (`toldApart_of_resolved`); from there on a search can take a record for one of the
time it looks for (`playbackFindTime_late`, `playbackFindFirstOffset_late`).

The loop ends without reading at the end of the file only when it comes to an end position that lies
ahead of the start position. This takes a start time and an end time, a record between them and one
after them, and the range must not cross the end of the file (`Contiguous`). In all other cases
`errno`, which no call sets, decides about the records that are enqueued.

## Main results

* `playbackFindTime_pos`, `playbackFindFirstOffset_pos` — what the two searches return
* `plays_of_contiguous` — a range inside the file is played
* `not_plays_of_not_contiguous` — no other range is
* `plays_iff` — the ranges that are played
-/

namespace Peep

open Layout Stdio Ring

/-- The time of a record. -/
def PlaybackRec.time (r : PlaybackRec) : ℚ :=
  Timeval.time ⟨r.mixTime.tvSec.toInt, r.mixTime.tvUsec.toInt⟩

/-- The number of seconds is small enough for a double to tell the time from others. -/
abbrev PlaybackRec.Resolved (r : PlaybackRec) : Prop :=
  Timeval.Resolved ⟨r.mixTime.tvSec.toInt, r.mixTime.tvUsec.toInt⟩

/-- A nonempty ring of whole records with increasing times, with the offset of the oldest record
(number `q`) in its header. -/
structure RingFile (header : PlaybackHeader) (records : List PlaybackRec) (q : ℕ) : Prop where
  /-- The times increase from the oldest record on. -/
  sorted : SortedFrom PlaybackRec.time records q
  /-- The offset of the oldest record. -/
  startPos : header.startPos.toInt = offset q

/-- The time of a record is in the requested range. A record at the end time is not. -/
def InRange (start? stop? : Option ℤ) (r : PlaybackRec) : Prop :=
  (∀ start ∈ start?, (start : ℚ) ≤ r.time) ∧ ∀ stop ∈ stop?, r.time < (stop : ℚ)

instance (start? stop? : Option ℤ) : DecidablePred (InRange start? stop?) :=
  fun _ => inferInstanceAs (Decidable (_ ∧ _))

/-- Whatever the environment, exactly the records in the range are enqueued, in the order of time,
and the loop ends. -/
def Plays (header : PlaybackHeader) (records : List PlaybackRec) (q : ℕ)
    (start? stop? : Option ℤ) : Prop :=
  ∀ env, ∃ fuel, playbackGo env fuel (playFile header records) start? stop?
    = some ((records.rotate q).filter fun r => InRange start? stop? r)

/-- There are a start and an end time, the first record from the start time on is before the end
time, and the first record from the end time on lies behind it in the file. -/
def Contiguous (records : List PlaybackRec) (q : ℕ) (start? stop? : Option ℤ) : Prop :=
  ∃ start ∈ start?, ∃ stop ∈ stop?, ∃ i j, FirstFrom PlaybackRec.time records q (start : ℚ) i ∧
    FirstFrom PlaybackRec.time records q (stop : ℚ) j ∧ i < j ∧
    ∃ hi : i < records.length, records[i].time < (stop : ℚ)

/-- The doubles that the code compares are in the order of the times. -/
structure ToldApart (records : List PlaybackRec) (start? stop? : Option ℤ) : Prop where
  /-- The times of two records. -/
  order : ∀ r ∈ records, ∀ r' ∈ records, recTime r < recTime r' ↔ r.time < r'.time
  /-- The time of a record, and the start or the end time. -/
  bound : ∀ z, z ∈ start? ∨ z ∈ stop? → ∀ r ∈ records,
    Timeval.inFpSecs ⟨z, 0⟩ ≤ recTime r ↔ (z : ℚ) ≤ r.time

variable {header : PlaybackHeader} {records : List PlaybackRec} {q f i j : ℕ} {env : Env}
  {start? stop? : Option ℤ} {start stop : ℤ} {t : Timeval} {old cur prev : PlaybackRec} {s : Stream}

/-! ## Times and their doubles -/

@[simp] theorem time_zero_usec (z : ℤ) : Timeval.time ⟨z, 0⟩ = z := by
  simp [Timeval.time]

/-- **Small numbers of seconds are told apart.** -/
theorem toldApart_of_resolved (h : ∀ r ∈ records, r.Resolved)
    (hbound : ∀ z, z ∈ start? ∨ z ∈ stop? → |z| < 2 ^ 33) : ToldApart records start? stop? where
  order r hr r' hr' := (h r hr).inFpSecs_lt_iff (h r' hr')
  bound z hz r hr := by
    have hres : Timeval.Resolved ⟨z, 0⟩ := ⟨hbound z hz, le_rfl, by norm_num⟩
    rw [← time_zero_usec z]
    exact hres.inFpSecs_le_iff (h r hr)

namespace ToldApart

variable (h : ToldApart records start? stop?)

include h

/-- The ring is sorted by the doubles. -/
theorem sorted (hsorted : SortedFrom PlaybackRec.time records q) : SortedFrom recTime records q :=
  hsorted.congr h.order

/-- The doubles have the same first record. -/
theorem firstFrom_iff {z : ℤ} (hz : z ∈ start? ∨ z ∈ stop?) :
    FirstFrom recTime records f (Timeval.inFpSecs ⟨z, 0⟩) j ↔
      FirstFrom PlaybackRec.time records f (z : ℚ) j :=
  firstFrom_congr (h.bound z hz)

theorem lt_iff {z : ℤ} (hz : z ∈ start? ∨ z ∈ stop?) (hi : i < records.length) :
    recTime records[i] < Timeval.inFpSecs ⟨z, 0⟩ ↔ records[i].time < (z : ℚ) := by
  rw [← not_le, ← not_le, h.bound z hz _ (List.getElem_mem hi)]

end ToldApart

/-! ## The searches in a ring -/

/-- **The second search finds** the first record of the time or later, from where it begins. -/
theorem playbackFindTime_first (hs : s.contents = playFile header records)
    (hf : f ≤ records.length) (hold : f = records.length → recTime old < t.inFpSecs)
    (hfirst : FirstFrom recTime records f t.inFpSecs j) :
    playbackFindTime s t (offset f) old
      = some ⟨offset j, playStream header records (j + 1)⟩ := by
  obtain ⟨hj, hkey, hbefore⟩ := hfirst
  simp only [rank] at hbefore
  rcases Nat.lt_or_ge j f with hjf | hfj
  · refine playbackFindTime_wrapped hs old hf hold hjf hj (fun k hk hfk => ?_)
      (fun k hk hkj => ?_) hkey
    · refine hbefore k hk ?_
      split_ifs <;> omega
    · refine hbefore k hk ?_
      split_ifs <;> omega
  · refine playbackFindTime_ahead hs old hfj hj (fun k hk hfk hkj => hbefore k hk ?_) hkey
    split_ifs
    omega

/-- **The first search finds** the beginning of the ring, or stays behind it. -/
theorem playbackFindFirstOffset_ring (header : PlaybackHeader) (h : SortedFrom recTime records q)
    (hi : i ≤ records.length) (cur prev : PlaybackRec) :
    ∃ s, playbackFindFirstOffset (playStream header records i) cur prev
        = some ⟨offset (max i q), s⟩ ∧
      s.contents = playFile header records := by
  have hq := h.lt_length
  rcases hi.lt_or_eq with hlt | rfl
  · rcases Nat.lt_or_ge i q with hiq | hqi
    · rw [max_eq_right hiq.le]
      refine ⟨_, playbackFindFirstOffset_smaller header cur prev hiq hq (fun k hk hik hkq => ?_) ?_,
        rfl⟩
      · rw [h.lt_iff hk hlt, rank, rank]
        split_ifs <;> omega
      · rw [h.lt_iff hq hlt, rank, rank]
        split_ifs <;> omega
    · rw [max_eq_left hqi]
      refine playbackFindFirstOffset_none header cur prev hlt fun k hk hik => ?_
      rw [h.lt_iff hk hlt, rank, rank]
      split_ifs <;> omega
  · rw [max_eq_left hq.le]
    exact playbackFindFirstOffset_end header records cur prev

/-! ## The bounds -/

/-- The header is read first. -/
theorem fread_header (header : PlaybackHeader) (records : List PlaybackRec) :
    fread ⟨playFile header records, 0, false⟩ PLAYBACK_H_SIZE
      = (headerCodec.encode header, playStream header records 0) := by
  have hbytes : ((playFile header records).drop 0).take PLAYBACK_H_SIZE
      = headerCodec.encode header := by
    rw [List.drop_zero]
    exact List.take_left' (headerCodec.length_encode header)
  rw [fread, hbytes, headerCodec.length_encode]
  rfl

/-- With its bounds found, what is played is what the loop enqueues. -/
theorem playbackGo_eq {endPos : ℤ} (fuel : ℕ) (hi : i < records.length)
    (hbounds : findBounds env header (playStream header records 0) start? stop?
      = some ⟨offset i, endPos, playStream header records i⟩) :
    playbackGo env fuel (playFile header records) start? stop?
      = playLoop (offset i) endPos fuel env.errno records[i] (playStream header records i) := by
  have hback : fseek (playStream header records (i + 1)) (offset (i + 1) - PLAYBACK_T_SIZE)
      = playStream header records i := by
    rw [offset_succ_sub]
    exact fseek_offset rfl i
  rw [playbackGo, fread_header, headerCodec.decode_encode, hbounds]
  show playLoop _ _ fuel env.errno (freadRec (playStream header records i) _).record _ = _
  rw [freadRec_record hi]
  exact congrArg _ hback

/-- Without a start time the recording is played from the oldest record on. -/
theorem findBounds_none (h : SortedFrom recTime records q)
    (hpos : header.startPos.toInt = offset q) :
    findBounds env header (playStream header records 0) none stop?
      = some ⟨offset q, 0, playStream header records q⟩ := by
  rw [findBounds]
  split
  · rw [hpos, Int.toNat_natCast, fseek_offset rfl]
  · obtain ⟨s, hfirst, hs⟩ := playbackFindFirstOffset_ring header h (Nat.zero_le _)
      (env.memory 0) (env.memory 1)
    rw [hfirst, Nat.zero_max]
    show some (Bounds.mk (offset q) 0 (fseek s (offset q))) = _
    rw [fseek_offset hs]

/-- The start position is that of the first record from the start time on. -/
theorem findStart_first (h : SortedFrom recTime records q)
    (hfirst : FirstFrom recTime records q (Timeval.inFpSecs ⟨start, 0⟩) i) :
    findStart env (playStream header records 0) start
      = some (⟨offset i, playStream header records (i + 1)⟩, offset q) := by
  have hq := h.lt_length
  obtain ⟨s, hsearch, hs⟩ := playbackFindFirstOffset_ring header h (Nat.zero_le _)
    (env.memory 0) (env.memory 1)
  rw [findStart, hsearch, Nat.zero_max]
  show Option.bind (playbackFindTime s ⟨start, 0⟩ (offset q) _) _ = _
  rw [playbackFindTime_first hs hq.le (fun heq => absurd heq hq.ne) hfirst]
  show some ((⟨if offset i = 0 then _ else _, _⟩ : Found), _) = _
  rw [if_neg (offset_ne_zero i)]

/-- With a start time alone, the end position is what is in memory. -/
theorem findBounds_start (h : SortedFrom recTime records q)
    (hfirst : FirstFrom recTime records q (Timeval.inFpSecs ⟨start, 0⟩) i) :
    findBounds env header (playStream header records 0) (some start) none
      = some ⟨offset i, env.endPos, playStream header records i⟩ := by
  rw [findBounds, findStart_first h hfirst]
  show some (Bounds.mk (offset i) env.endPos (fseek (playStream _ _ (i + 1)) (offset i))) = _
  rw [fseek_offset rfl]

/-- With a start and an end time, the end position is what the search for the end finds. -/
theorem findBounds_stop {endPos : ℤ} (h : SortedFrom recTime records q)
    (hfirst : FirstFrom recTime records q (Timeval.inFpSecs ⟨start, 0⟩) i)
    (hend : findEnd env (playStream header records (i + 1)) (offset i) (offset q) stop
      = some (endPos, playStream header records j)) :
    findBounds env header (playStream header records 0) (some start) (some stop)
      = some ⟨offset i, endPos, playStream header records i⟩ := by
  rw [findBounds, findStart_first h hfirst]
  show Option.bind (findEnd env (playStream _ _ (i + 1)) (offset i) (offset q) stop) _ = _
  rw [hend]
  show some (Bounds.mk (offset i) endPos (fseek (playStream _ _ j) (offset i))) = _
  rw [fseek_offset rfl]

/-- The end position is that of a record from the end time on, if the search finds one. -/
theorem findEnd_first (env : Env) (header : PlaybackHeader) (h : SortedFrom recTime records q)
    (hi : i < records.length)
    (hold : max (i + 1) q = records.length →
      recTime (env.memory 5) < Timeval.inFpSecs ⟨stop, 0⟩)
    (hlast : FirstFrom recTime records (max (i + 1) q) (Timeval.inFpSecs ⟨stop, 0⟩) j)
    (startPos startPos' : ℕ) :
    findEnd env (playStream header records (i + 1)) startPos startPos' stop
      = some ((offset j : ℤ), playStream header records (j + 1)) := by
  have hnext : i + 1 ≤ records.length := hi
  have hf : max (i + 1) q ≤ records.length := max_le hnext h.lt_length.le
  obtain ⟨s, hsearch, hs⟩ := playbackFindFirstOffset_ring header h hnext
    (env.memory 3) (env.memory 4)
  rw [findEnd, hsearch]
  show Option.bind (playbackFindTime s ⟨stop, 0⟩ (offset _) _) _ = _
  rw [playbackFindTime_first hs hf hold hlast]
  show some ((if offset j = 0 then _ else (offset j : ℤ)), _) = _
  rw [if_neg (offset_ne_zero j)]

/-- Without a record from the end time on, the end position is not behind the start position. -/
theorem findEnd_none (env : Env) (header : PlaybackHeader) (h : SortedFrom recTime records q)
    (hi : i < records.length)
    (hold : max (i + 1) q = records.length →
      recTime (env.memory 5) < Timeval.inFpSecs ⟨stop, 0⟩)
    (hall : ∀ k (hk : k < records.length), recTime records[k] < Timeval.inFpSecs ⟨stop, 0⟩)
    (startPos' : ℕ) :
    ∃ endPos : ℤ, endPos ≤ offset i ∧
      findEnd env (playStream header records (i + 1)) (offset i) startPos' stop
        = some (endPos, playStream header records (max (i + 1) q)) := by
  have hnext : i + 1 ≤ records.length := hi
  have hf : max (i + 1) q ≤ records.length := max_le hnext h.lt_length.le
  obtain ⟨s, hsearch, hs⟩ := playbackFindFirstOffset_ring header h hnext
    (env.memory 3) (env.memory 4)
  refine ⟨if startPos' = PLAYBACK_H_SIZE then (PLAYBACK_H_SIZE : ℤ)
    else (offset i : ℤ) - PLAYBACK_T_SIZE, ?_, ?_⟩
  · rw [offset]
    split <;> omega
  · rw [findEnd, hsearch]
    show Option.bind (playbackFindTime s ⟨stop, 0⟩ (offset _) _) _ = _
    rw [playbackFindTime_none hs _ hf hold hall]
    show some ((if 0 = 0 then _ else _), _) = _
    rw [if_pos rfl]

/-! ## Ranges that are played -/

/-- **A range inside the file is played.** -/
theorem plays_of_contiguous (h : RingFile header records q)
    (htold : ToldApart records start? stop?) (hrange : Contiguous records q start? stop?) :
    Plays header records q start? stop? := by
  obtain ⟨start, rfl, stop, rfl, i, j, hfirst, hlast, hij, hi, hkey⟩ := hrange
  intro env
  obtain ⟨n, rfl⟩ : ∃ n, j = i + (n + 1) := ⟨j - i - 1, by omega⟩
  have hj : i + (n + 1) < records.length := hlast.1
  have hq := h.sorted.lt_length
  have hsorted := htold.sorted h.sorted
  have hlast' := (h.sorted.firstFrom_max_iff hi hkey hij).mpr hlast
  have hend := findEnd_first env header hsorted hi (fun heq => by omega)
    ((htold.firstFrom_iff (.inr rfl)).mpr hlast') (offset i) (offset q)
  have hbounds : findBounds env header (playStream header records 0) (some start) (some stop)
      = some ⟨offset i, (offset (i + (n + 1)) : ℤ), playStream header records i⟩ :=
    findBounds_stop hsorted ((htold.firstFrom_iff (.inl rfl)).mpr hfirst) hend
  have hfilter := h.sorted.filter_rotate hfirst hlast hi hkey hij
    (fun r => InRange (some start) (some stop) r) fun r => by simp [InRange]
  refine ⟨n + 1, ?_⟩
  rw [playbackGo_eq _ hi hbounds, hfilter, Nat.add_sub_cancel_left]
  exact playLoop_segment header env.errno records[i] le_rfl hj.le

/-- An environment that never reports an interrupted read. -/
def quietEnv (r : PlaybackRec) : Env where
  errno := fun _ => 0
  endPos := 0
  memory := fun _ => r

theorem quietEnv_errno (r : PlaybackRec) (n : ℕ) : (quietEnv r).errno n ≠ EINTR := by
  show 0 ≠ EINTR
  decide

/-- An empty range is not played: the loop reads before it looks for its end. -/
theorem not_plays_of_empty (r : PlaybackRec)
    (hempty : ((records.rotate q).filter fun r => InRange start? stop? r) = []) :
    ¬ Plays header records q start? stop? := by
  intro hplays
  obtain ⟨fuel, hgo⟩ := hplays (quietEnv r)
  rw [hempty, playbackGo] at hgo
  obtain ⟨bounds, -, hloop⟩ := Option.bind_eq_some_iff.mp hgo
  exact playLoop_ne_nil (quietEnv_errno r) fuel hloop

/-- A range is not played if the end position is not ahead of the start position. -/
theorem not_plays_of_endless {r : PlaybackRec} {endPos : ℤ} (hi : i < records.length)
    (hbounds : findBounds (quietEnv r) header (playStream header records 0) start? stop?
      = some ⟨offset i, endPos, playStream header records i⟩)
    (hend : endPos ≤ offset i) : ¬ Plays header records q start? stop? := by
  intro hplays
  obtain ⟨fuel, hgo⟩ := hplays (quietEnv r)
  rw [playbackGo_eq fuel hi hbounds, playLoop_endless (quietEnv_errno r) hi] at hgo
  · exact nomatch hgo
  · intro k hk _
    have hlt : (offset i : ℤ) < offset k := by
      rw [offset, offset, PLAYBACK_T_SIZE]
      omega
    exact ⟨(hend.trans_lt hlt).ne', hlt.ne'⟩

/-- No record is in a range if all are before the start time, or if the first one from the start
time on is not before the end time. -/
theorem RingFile.filter_eq_nil (h : RingFile header records q) (hstart : start ∈ start?)
    (hnone : (∀ k (hk : k < records.length), records[k].time < (start : ℚ)) ∨
      ∃ i, FirstFrom PlaybackRec.time records q (start : ℚ) i ∧ ∃ stop ∈ stop?,
        ∃ hi : i < records.length, (stop : ℚ) ≤ records[i].time) :
    ((records.rotate q).filter fun r => InRange start? stop? r) = [] := by
  rw [List.filter_eq_nil_iff]
  intro r hr hrange
  rw [List.mem_rotate] at hr
  obtain ⟨k, hk, rfl⟩ := List.getElem_of_mem hr
  obtain ⟨hfrom, hbefore⟩ := of_decide_eq_true hrange
  rcases hnone with hall | ⟨i, hfirst, stop, hstop, hi, hkey⟩
  · exact absurd (hfrom start hstart) (not_le.mpr (hall k hk))
  · -- the records from the start time on are not before the first of them
    have hrank := (h.sorted.le_key_iff hfirst hk).mp (hfrom start hstart)
    have hle := (h.sorted.le_iff hi hk).mpr hrank
    exact absurd (hbefore stop hstop) (not_lt.mpr (hkey.trans hle))

/-- **No other range is played.** -/
theorem not_plays_of_not_contiguous (h : RingFile header records q)
    (htold : ToldApart records start? stop?) (hrange : ¬ Contiguous records q start? stop?) :
    ¬ Plays header records q start? stop? := by
  have hq := h.sorted.lt_length
  have hsorted := htold.sorted h.sorted
  rcases start? with _ | start
  · exact not_plays_of_endless (r := records[q]) hq (findBounds_none hsorted h.startPos)
      (Int.natCast_nonneg _)
  rcases exists_firstFrom PlaybackRec.time records q (start : ℚ) with ⟨i, hfirst⟩ | hall
  swap
  · exact not_plays_of_empty records[q] (h.filter_eq_nil rfl (.inl hall))
  have hi : i < records.length := hfirst.1
  have hfirst' := (htold.firstFrom_iff (.inl rfl)).mpr hfirst
  rcases stop? with _ | stop
  · exact not_plays_of_endless (r := records[q]) hi (findBounds_start hsorted hfirst')
      (Int.natCast_nonneg _)
  rcases le_or_gt (stop : ℚ) records[i].time with hle | hkey
  · exact not_plays_of_empty records[q]
      (h.filter_eq_nil rfl (.inr ⟨i, hfirst, stop, rfl, hi, hle⟩))
  -- what is in memory is before the end time as well
  have hkey' := (htold.lt_iff (.inr rfl) hi).mpr hkey
  rcases exists_firstFrom PlaybackRec.time records (max (i + 1) q) (stop : ℚ) with ⟨j, hlast⟩ | hall
  · have hend := findEnd_first (quietEnv records[i]) header hsorted hi (fun _ => hkey')
      ((htold.firstFrom_iff (.inr rfl)).mpr hlast) (offset i) (offset q)
    rcases Nat.lt_or_ge i j with hij | hji
    · exact absurd ⟨start, rfl, stop, rfl, i, j, hfirst,
        (h.sorted.firstFrom_max_iff hi hkey hij).mp hlast, hij, hi, hkey⟩ hrange
    · refine not_plays_of_endless hi (findBounds_stop hsorted hfirst' hend) ?_
      rw [offset, offset]
      exact_mod_cast Nat.add_le_add_left (Nat.mul_le_mul_right _ hji) _
  · obtain ⟨endPos, hle, hend⟩ := findEnd_none (quietEnv records[i]) header hsorted hi
      (fun _ => hkey') (fun k hk => (htold.lt_iff (.inr rfl) hk).mpr (hall k hk)) (offset q)
    exact not_plays_of_endless hi (findBounds_stop hsorted hfirst' hend) hle

/-- **The ranges that are played** are those with a start and an end time that do not cross the end
of the file and have a record behind them. -/
theorem plays_iff (h : RingFile header records q) (htold : ToldApart records start? stop?) :
    Plays header records q start? stop? ↔ Contiguous records q start? stop? := by
  refine ⟨fun hplays => ?_, plays_of_contiguous h htold⟩
  by_contra hrange
  exact not_plays_of_not_contiguous h htold hrange hplays

/-- A header with the offset of the first record. -/
def sampleHeader : PlaybackHeader where
  majorVer := PLAYBACK_MAJOR_VER
  minorVer := PLAYBACK_MINOR_VER
  maxEvents := 3200
  written := 2
  startPos := 56
  startT := ⟨0, 0⟩
  endT := ⟨0, 0⟩

/-- A record of an event at a time. -/
def sampleRec (sec usec : Int64) : PlaybackRec where
  event := ⟨0, 0, 0, 0, 0, (0, 0, 0), 0, 0, 0⟩
  mixTime := ⟨sec, usec⟩

/-- Two records in the order of time. -/
theorem sampleFile : RingFile sampleHeader [sampleRec 1 0, sampleRec 2 0] 0 := by
  refine ⟨⟨by decide, ?_⟩, by decide⟩
  rw [List.rotate_zero, List.pairwise_pair]
  decide +kernel

theorem resolved_sampleFile : ∀ r ∈ [sampleRec 1 0, sampleRec 2 0], r.Resolved := by
  rw [List.forall_mem_cons, List.forall_mem_singleton]
  exact ⟨⟨by decide, by decide, by decide⟩, ⟨by decide, by decide, by decide⟩⟩

/-- Between the times of two records the first one is played. -/
theorem plays_first :
    Plays sampleHeader [sampleRec 1 0, sampleRec 2 0] 0 (some 1) (some 2) := by
  have htold : ToldApart [sampleRec 1 0, sampleRec 2 0] (some 1) (some 2) := by
    refine toldApart_of_resolved resolved_sampleFile ?_
    rintro z (hz | hz)
    · obtain rfl := Option.some.inj hz
      decide
    · obtain rfl := Option.some.inj hz
      decide
  have hfirst : (sampleRec 1 0).time = (1 : ℤ) := time_zero_usec 1
  have hlast : (sampleRec 2 0).time = (2 : ℤ) := time_zero_usec 2
  have hbefore : (sampleRec 1 0).time < (2 : ℤ) := by
    rw [hfirst, Int.cast_lt]
    decide
  refine (plays_iff sampleFile htold).mpr ⟨1, rfl, 2, rfl, 0, 1, ⟨by decide, hfirst.ge, ?_⟩,
    ⟨by decide, hlast.ge, ?_⟩, by decide, by decide, hbefore⟩
  · exact fun k _ hk => absurd hk (Nat.not_lt_zero _)
  · intro k hk hrank
    obtain rfl : k = 0 := by
      simp only [rank, Nat.zero_le, if_true, Nat.sub_zero] at hrank
      omega
    exact hbefore

/-- Without an end time the loop does not end. -/
theorem not_plays_sample :
    RingFile sampleHeader [sampleRec 1 0, sampleRec 2 0] 0 ∧
      ¬ Plays sampleHeader [sampleRec 1 0, sampleRec 2 0] 0 none none :=
  ⟨sampleFile, not_plays_of_not_contiguous sampleFile
    (toldApart_of_resolved resolved_sampleFile (by rintro z (hz | hz) <;> exact nomatch hz)) nofun⟩

/-! ## What the searches return -/

/-- A position is that of the first record with a key of `x` or more, in the order from the record
`f`, or 0 if there is none. -/
def Finds (key : PlaybackRec → ℚ) (x : ℚ) (records : List PlaybackRec) (f pos : ℕ) : Prop :=
  (∀ j, pos = offset j ↔ FirstFrom key records f x j) ∧ (pos = 0 ↔ ¬ ∃ r ∈ records, x ≤ key r)

/-- Keys that compare in the same way have the same position. -/
theorem finds_congr {key key' : PlaybackRec → ℚ} {x x' : ℚ} {pos : ℕ}
    (h : ∀ r ∈ records, x ≤ key r ↔ x' ≤ key' r) :
    Finds key x records f pos ↔ Finds key' x' records f pos := by
  have hex : (∃ r ∈ records, x ≤ key r) ↔ ∃ r ∈ records, x' ≤ key' r :=
    exists_congr fun r => and_congr_right (h r)
  rw [Finds, Finds, hex]
  exact and_congr_left' (forall_congr' fun j => by rw [firstFrom_congr h])

/-- **The second search** returns the position of the first record whose double is that of the time
or more, in the order from the record where it begins, or 0 if there is none. For small numbers of
seconds this is the first record of the time or later. -/
theorem playbackFindTime_pos (hs : s.contents = playFile header records) (hf : f < records.length)
    (t : Timeval) (old : PlaybackRec) :
    ∃ found, playbackFindTime s t (offset f) old = some found ∧
      Finds recTime t.inFpSecs records f found.pos ∧
      (t.Resolved → (∀ r ∈ records, r.Resolved) →
        Finds PlaybackRec.time t.time records f found.pos) := by
  suffices h : ∃ found, playbackFindTime s t (offset f) old = some found ∧
      Finds recTime t.inFpSecs records f found.pos by
    obtain ⟨found, hfound, hpos⟩ := h
    exact ⟨found, hfound, hpos, fun ht hrecords =>
      (finds_congr fun r hr => ht.inFpSecs_le_iff (hrecords r hr)).mp hpos⟩
  have hold : f = records.length → recTime old < t.inFpSecs := fun heq => absurd heq hf.ne
  rcases exists_firstFrom recTime records f t.inFpSecs with ⟨j, hfirst⟩ | hall
  · refine ⟨_, playbackFindTime_first hs hf.le hold hfirst, fun k => ?_, ?_⟩
    · refine offset_inj.trans ⟨?_, hfirst.unique⟩
      rintro rfl
      exact hfirst
    · obtain ⟨hj, hkey, -⟩ := hfirst
      exact iff_of_false (offset_ne_zero j)
        (not_not.mpr ⟨records[j], List.getElem_mem hj, hkey⟩)
  · refine ⟨_, playbackFindTime_none hs old hf.le hold hall, fun k => ?_, iff_of_true rfl ?_⟩
    · refine iff_of_false (offset_ne_zero k).symm ?_
      rintro ⟨hk, hkey, -⟩
      exact absurd hkey (not_le.mpr (hall k hk))
    · rintro ⟨r, hr, hkey⟩
      obtain ⟨k, hk, rfl⟩ := List.getElem_of_mem hr
      exact absurd hkey (not_le.mpr (hall k hk))

/-- From the second record on, the first record is the last to be looked at. -/
theorem playbackFindTime_pos_around :
    ∃ found, playbackFindTime (playStream sampleHeader [sampleRec 2 0, sampleRec 1 999999] 0)
      ⟨2, 0⟩ (offset 1) (sampleRec 0 0) = some found ∧ found.pos = offset 0 := by
  have hcontents : (playStream sampleHeader [sampleRec 2 0, sampleRec 1 999999] 0).contents
      = playFile sampleHeader [sampleRec 2 0, sampleRec 1 999999] := rfl
  have hres : ∀ r ∈ [sampleRec 2 0, sampleRec 1 999999], r.Resolved := by
    rw [List.forall_mem_cons, List.forall_mem_singleton]
    exact ⟨⟨by decide, by decide, by decide⟩, ⟨by decide, by decide, by decide⟩⟩
  obtain ⟨found, hfound, -, hfinds⟩ :=
    playbackFindTime_pos hcontents (show 1 < 2 by decide) ⟨2, 0⟩ (sampleRec 0 0)
  obtain ⟨hpos, -⟩ := hfinds ⟨by decide, by decide, by decide⟩ hres
  have hsecond : (sampleRec 1 999999).time < Timeval.time ⟨2, 0⟩ := by decide +kernel
  refine ⟨found, hfound, (hpos 0).mpr ⟨by decide, by decide +kernel, fun k hk hrank => ?_⟩⟩
  obtain rfl : k = 1 := by
    simp only [rank, List.length_cons, List.length_nil] at hk hrank
    split_ifs at hrank <;> omega
  exact hsecond

/-- The double of `2 ^ 33` seconds and a microsecond is that of `2 ^ 33` seconds and two. -/
theorem playbackFindTime_late :
    ∃ found, playbackFindTime (playStream sampleHeader [sampleRec 8589934592 1] 0) ⟨2 ^ 33, 2⟩
        (offset 0) (sampleRec 0 0) = some found ∧ found.pos = offset 0 ∧
      (sampleRec 8589934592 1).time < Timeval.time ⟨2 ^ 33, 2⟩ := by
  have hfound : Timeval.inFpSecs ⟨2 ^ 33, 2⟩ ≤ recTime (sampleRec 8589934592 1) := by
    decide +kernel
  have hsearch : playbackFindTime (playStream sampleHeader [sampleRec 8589934592 1] 0)
      ⟨2 ^ 33, 2⟩ (offset 0) (sampleRec 0 0)
        = some ⟨offset 0, playStream sampleHeader [sampleRec 8589934592 1] 1⟩ :=
    playbackFindTime_ahead rfl (sampleRec 0 0) le_rfl
      (show 0 < [sampleRec 8589934592 1].length from Nat.one_pos)
      (fun k _ hk hlt => absurd hlt hk.not_gt) hfound
  exact ⟨_, hsearch, rfl, by decide +kernel⟩

/-- The number of the first record that is earlier than the first one of the file, by their
doubles, or of that one. -/
def FirstDrop (records : List PlaybackRec) (q : ℕ) : Prop :=
  ∃ hq : q < records.length,
    (∀ k (hk : k < q), ¬ recTime records[k] < recTime records[0]) ∧
    (recTime records[q] < recTime records[0] ∨
      q = 0 ∧ ∀ k (hk : k < records.length), ¬ recTime records[k] < recTime records[0])

/-- There is such a record, and the search returns its position. -/
theorem exists_firstDrop (header : PlaybackHeader) (hne : records ≠ []) (cur prev : PlaybackRec) :
    ∃ found q, playbackFindFirstOffset (playStream header records 0) cur prev = some found ∧
      found.pos = offset q ∧ FirstDrop records q := by
  have hpos : 0 < records.length := List.length_pos_iff.mpr hne
  by_cases h : ∃ k, ∃ hk : k < records.length, recTime records[k] < recTime records[0]
  · obtain ⟨q, ⟨hq, hlt⟩, hmin⟩ := exists_minimalFor_of_wellFoundedLT _ id h
    have hnot : ∀ k (hk : k < q), ¬ recTime records[k] < recTime records[0] := fun k hk hlt =>
      absurd (hmin ⟨hk.trans hq, hlt⟩ hk.le) (not_le.mpr hk)
    have hq0 : 0 < q := Nat.pos_of_ne_zero fun h0 => by
      subst h0
      exact lt_irrefl _ hlt
    exact ⟨_, q, playbackFindFirstOffset_smaller header cur prev hq0 hq
      (fun k _ _ hkq => hnot k hkq) hlt, rfl, hq, hnot, .inl hlt⟩
  · push Not at h
    have hnot : ∀ k (hk : k < records.length), ¬ recTime records[k] < recTime records[0] :=
      fun k hk => not_lt.mpr (h k hk)
    obtain ⟨s, hsearch, -⟩ := playbackFindFirstOffset_none header cur prev hpos
      fun k hk _ => hnot k hk
    exact ⟨_, 0, hsearch, rfl, hpos, fun k hk => absurd hk (Nat.not_lt_zero k), .inr ⟨rfl, hnot⟩⟩

/-- **The first search**, from the first record on, returns the position of the first record with a
smaller double than it, or its own position. For small numbers of seconds, in a rotation of
increasing times, this is the record with the smallest time. -/
theorem playbackFindFirstOffset_pos (header : PlaybackHeader) (hne : records ≠ [])
    (cur prev : PlaybackRec) :
    ∃ found q, playbackFindFirstOffset (playStream header records 0) cur prev = some found ∧
      found.pos = offset q ∧ FirstDrop records q ∧
      ∀ times : List ℚ, (records.map PlaybackRec.time).IsRotated times →
        times.Pairwise (· < ·) → (∀ r ∈ records, r.Resolved) → ∃ hq : q < records.length,
          ∀ j (hj : j < records.length), j ≠ q → records[q].time < records[j].time := by
  obtain ⟨found, q, hsearch, hpos, hdrop⟩ := exists_firstDrop header hne cur prev
  refine ⟨found, q, hsearch, hpos, hdrop, fun times hrotated htimes hres => ?_⟩
  obtain ⟨q', h⟩ := SortedFrom.of_isRotated hne hrotated htimes
  have htold : ToldApart records none none :=
    toldApart_of_resolved hres (by rintro z (hz | hz) <;> exact nomatch hz)
  obtain ⟨s, hring, -⟩ := playbackFindFirstOffset_ring header (htold.sorted h) (Nat.zero_le _)
    cur prev
  rw [Nat.zero_max, hsearch] at hring
  obtain rfl : q = q' := by
    rw [← offset_inj, ← hpos, Option.some.inj hring]
  exact ⟨h.lt_length, fun j hj => h.key_lt h.lt_length hj⟩

/-- The second of two records is the older one. -/
theorem playbackFindFirstOffset_pos_second :
    ∃ found, playbackFindFirstOffset (playStream sampleHeader [sampleRec 2 0, sampleRec 1 0] 0)
      (sampleRec 0 0) (sampleRec 0 0) = some found ∧ found.pos = offset 1 := by
  have hlt : (sampleRec 1 0).time < (sampleRec 2 0).time := by decide +kernel
  have hres : ∀ r ∈ [sampleRec 2 0, sampleRec 1 0], r.Resolved := by
    rw [List.forall_mem_cons, List.forall_mem_singleton]
    exact ⟨⟨by decide, by decide, by decide⟩, ⟨by decide, by decide, by decide⟩⟩
  obtain ⟨found, q, hfound, hpos, -, hmin⟩ := playbackFindFirstOffset_pos sampleHeader
    (List.cons_ne_nil (sampleRec 2 0) [sampleRec 1 0]) (sampleRec 0 0) (sampleRec 0 0)
  obtain ⟨hq, hmin⟩ := hmin [(sampleRec 1 0).time, (sampleRec 2 0).time] ⟨1, rfl⟩
    (List.pairwise_pair.mpr hlt) hres
  obtain rfl : q = 1 := by
    by_contra hne
    obtain rfl : q = 0 := by
      simp only [List.length_cons, List.length_nil] at hq
      omega
    exact lt_asymm hlt (hmin 1 (by decide) (by decide))
  exact ⟨found, hfound, hpos⟩

/-- The times of two records decrease, and their doubles are equal. -/
theorem playbackFindFirstOffset_late :
    ∃ found, playbackFindFirstOffset
        (playStream sampleHeader [sampleRec 8589934592 2, sampleRec 8589934592 1] 0)
        (sampleRec 0 0) (sampleRec 0 0) = some found ∧ found.pos = offset 0 ∧
      (sampleRec 8589934592 1).time < (sampleRec 8589934592 2).time := by
  have hnot : ¬ recTime (sampleRec 8589934592 1) < recTime (sampleRec 8589934592 2) := by
    decide +kernel
  obtain ⟨s, hsearch, -⟩ := playbackFindFirstOffset_none sampleHeader (sampleRec 0 0)
    (sampleRec 0 0) (show 0 < [sampleRec 8589934592 2, sampleRec 8589934592 1].length by decide)
    fun k hk hpos => by
      obtain rfl : k = 1 := by
        simp only [List.length_cons, List.length_nil] at hk
        omega
      exact hnot
  exact ⟨_, hsearch, rfl, by decide +kernel⟩

end Peep
