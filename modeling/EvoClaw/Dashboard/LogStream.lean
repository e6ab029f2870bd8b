import EvoClaw.RingBuffer

-- The log buffer of host/log_buffer.py, and the stream of it that a connection to
-- /api/logs/stream gets.
namespace EvoClaw.Dashboard

def MAX_SIZE : Nat := 2000

-- The limit of a page of the stream.
def LIMIT : Nat := 50

structure LogRecord where
  time : String := ""
  level : String
  name : String
  msg : String
deriving DecidableEq

structure LogEntry extends LogRecord where
  idx : Nat
deriving DecidableEq

structure LogBuffer where
  items : List LogEntry := []
  counter : Nat := 0

-- _BufferHandler.emit, for a record that can be formatted.
def LogBuffer.emit (buffer : LogBuffer) (record : LogRecord) : LogBuffer where
  items := RingBuffer.push MAX_SIZE buffer.items { record with idx := buffer.counter + 1 }
  counter := buffer.counter + 1

section Stream

-- str.upper
variable (upper : String → String)

def getLogs (since_idx : Nat) (level : Option String) (limit : Int) (buffer : LogBuffer) :
    List LogEntry :=
  let limit := (max 1 (min limit MAX_SIZE)).toNat
  let items := buffer.items
  let items := if 0 < since_idx then items.filter fun i => since_idx < i.idx else items
  let items :=
    match level with
    | none => items
    | some level =>
        if level ≠ "" ∧ upper level ≠ "ALL" then items.filter fun i => i.level = upper level
        else items
  items.rtake limit

-- The buffer, and what the loop of _handle_sse_logs has come to.
structure LogStream where
  buffer : LogBuffer
  lastIdx : Nat := 0
  sent : List LogEntry := []

inductive LogEvent where
  | emit (record : LogRecord)
  | poll

def LogStream.step (level : String) (stream : LogStream) : LogEvent → LogStream
  | .emit record => { stream with buffer := stream.buffer.emit record }
  | .poll =>
      let entries := getLogs upper stream.lastIdx (some level) LIMIT stream.buffer
      { stream with
        lastIdx := entries.foldl (fun _ entry => entry.idx) stream.lastIdx
        sent := stream.sent ++ entries }

def LogStream.run (level : String) (stream : LogStream) (events : List LogEvent) : LogStream :=
  events.foldl (LogStream.step upper level) stream

-- Polls with the records that are logged before each of them. What is logged behind the last one
-- is not due yet.
def polls (bursts : List (List LogRecord)) : List LogEvent :=
  bursts.flatMap fun burst => burst.map LogEvent.emit ++ [.poll]

-- A connection after its first poll, with the records that were logged before it.
def opened (level : String) (before : List LogRecord) : LogStream :=
  LogStream.step upper level { buffer := before.foldl LogBuffer.emit {} } .poll

-- The entries that records get.
def entriesFrom (counter : Nat) : List LogRecord → List LogEntry
  | [] => []
  | record :: rest => { record with idx := counter + 1 } :: entriesFrom (counter + 1) rest

def wanted (level : String) (record : LogRecord) : Bool :=
  level = "" ∨ upper level = "ALL" ∨ record.level = upper level

end Stream

section Entries

variable {counter : Nat} {records more : List LogRecord} {entry : LogEntry}

theorem entriesFrom_append (counter : Nat) (records more : List LogRecord) :
    entriesFrom counter (records ++ more) =
      entriesFrom counter records ++ entriesFrom (counter + records.length) more := by
  induction records generalizing counter with
  | nil => rfl
  | cons record records ih =>
      rw [List.cons_append, entriesFrom, ih, entriesFrom, List.length_cons, List.cons_append,
        Nat.add_right_comm counter 1, Nat.add_assoc]

theorem length_entriesFrom (counter : Nat) (records : List LogRecord) :
    (entriesFrom counter records).length = records.length := by
  induction records generalizing counter with
  | nil => rfl
  | cons record records ih => rw [entriesFrom, List.length_cons, ih, List.length_cons]

theorem map_entriesFrom (counter : Nat) (records : List LogRecord) :
    (entriesFrom counter records).map LogEntry.toLogRecord = records := by
  induction records generalizing counter with
  | nil => rfl
  | cons record records ih => rw [entriesFrom, List.map_cons, ih]

theorem mem_entriesFrom (h : entry ∈ entriesFrom counter records) :
    counter < entry.idx ∧ entry.idx ≤ counter + records.length := by
  induction records generalizing counter with
  | nil => cases h
  | cons record records ih =>
      rw [List.length_cons]
      rcases List.mem_cons.mp h with rfl | h
      · refine ⟨Nat.lt_succ_self counter, ?_⟩
        dsimp only
        omega
      · have hrest := ih h
        omega

theorem pairwise_entriesFrom (counter : Nat) (records : List LogRecord) :
    (entriesFrom counter records).Pairwise fun first second => first.idx < second.idx := by
  induction records generalizing counter with
  | nil => exact List.Pairwise.nil
  | cons record records ih =>
      refine List.pairwise_cons.mpr ⟨fun entry hentry => ?_, ih (counter + 1)⟩
      exact (mem_entriesFrom hentry).1

end Entries

section Buffer

variable {buffer : LogBuffer}

-- The entries stand in the order of their numbers, which the counter has passed.
structure LogBuffer.Kept (buffer : LogBuffer) : Prop where
  short : buffer.items.length ≤ MAX_SIZE
  sorted : buffer.items.Pairwise fun first second => first.idx < second.idx
  numbered : ∀ entry ∈ buffer.items, 0 < entry.idx ∧ entry.idx ≤ buffer.counter

theorem LogBuffer.kept_empty : LogBuffer.Kept {} :=
  ⟨Nat.zero_le _, List.Pairwise.nil, by simp⟩

theorem LogBuffer.emitAll_eq (buffer : LogBuffer) (records : List LogRecord) :
    records.foldl LogBuffer.emit buffer =
      { items := RingBuffer.pushAll MAX_SIZE buffer.items (entriesFrom buffer.counter records)
        counter := buffer.counter + records.length } := by
  induction records generalizing buffer with
  | nil => rfl
  | cons record records ih =>
      rw [List.foldl_cons, ih, entriesFrom, RingBuffer.pushAll_cons, List.length_cons,
        Nat.add_comm records.length 1, ← Nat.add_assoc, LogBuffer.emit]

theorem LogBuffer.Kept.emitAll (h : buffer.Kept) (records : List LogRecord) :
    (records.foldl LogBuffer.emit buffer).Kept := by
  rw [LogBuffer.emitAll_eq]
  have hsublist : (RingBuffer.pushAll MAX_SIZE buffer.items
      (entriesFrom buffer.counter records)).Sublist
        (buffer.items ++ entriesFrom buffer.counter records) := by
    rw [RingBuffer.pushAll_eq h.short]
    exact List.drop_sublist _ _
  refine ⟨RingBuffer.length_pushAll_le h.short _, List.Pairwise.sublist hsublist ?_, ?_⟩
  · refine List.pairwise_append.mpr ⟨h.sorted, pairwise_entriesFrom _ _, fun old hold new hnew => ?_⟩
    exact (h.numbered old hold).2.trans_lt (mem_entriesFrom hnew).1
  · intro entry hentry
    dsimp only
    rcases List.mem_append.mp (hsublist.subset hentry) with hold | hnew
    · have hnumbered := h.numbered entry hold
      omega
    · have hnumbered := mem_entriesFrom hnew
      omega

end Buffer

section Polling

variable {upper : String → String} {level : String} {stream : LogStream} {burst : List LogRecord}
  {bursts : List (List LogRecord)}

theorem getLogs_eq {buffer : LogBuffer} (h : buffer.Kept) (since_idx : Nat) :
    getLogs upper since_idx (some level) LIMIT buffer =
      (buffer.items.filter fun entry =>
        since_idx < entry.idx ∧ wanted upper level entry.toLogRecord).rtake LIMIT := by
  have hsince : (if 0 < since_idx then buffer.items.filter fun entry => since_idx < entry.idx
      else buffer.items) = buffer.items.filter fun entry => since_idx < entry.idx := by
    split
    · rfl
    · refine (List.filter_eq_self.mpr fun entry hentry => ?_).symm
      have hpos := (h.numbered entry hentry).1
      exact decide_eq_true (by omega)
  have hlevel (items : List LogEntry) : (if level ≠ "" ∧ upper level ≠ "ALL" then
      items.filter fun entry => entry.level = upper level else items) =
        items.filter fun entry => wanted upper level entry.toLogRecord := by
    split
    · next hfilter =>
        refine List.filter_congr fun entry _ => ?_
        simp [wanted, hfilter.1, hfilter.2]
    · next hfilter =>
        refine (List.filter_eq_self.mpr fun entry _ => ?_).symm
        simp only [wanted, decide_eq_true_eq]
        tauto
  unfold getLogs
  dsimp only
  rw [hsince, hlevel, List.filter_filter]
  congr 1
  refine List.filter_congr fun entry _ => ?_
  simp [Bool.and_comm]

-- What the next poll would have to send.
def LogStream.owed (upper : String → String) (level : String) (stream : LogStream) : List LogEntry :=
  stream.buffer.items.filter fun entry =>
    stream.lastIdx < entry.idx ∧ wanted upper level entry.toLogRecord

-- A stream between a poll and the next record.
structure LogStream.Settled (upper : String → String) (level : String) (stream : LogStream) :
    Prop where
  kept : stream.buffer.Kept
  bounded : stream.lastIdx ≤ stream.buffer.counter
  settled : stream.owed upper level = []

theorem lastIdx_poll (entries : List LogEntry) (entry : LogEntry) (last : Nat) :
    (entries ++ [entry]).foldl (fun _ entry => entry.idx) last = entry.idx := by
  rw [List.foldl_append]
  rfl

theorem sent_poll (h : stream.buffer.Kept) :
    (LogStream.step upper level stream .poll).sent =
      stream.sent ++ (stream.owed upper level).rtake LIMIT := by
  unfold LogStream.step LogStream.owed
  dsimp only
  rw [getLogs_eq h]

-- A poll leaves nothing behind that a later one would send.
theorem settled_poll (h : stream.buffer.Kept) (hbounded : stream.lastIdx ≤ stream.buffer.counter) :
    (LogStream.step upper level stream .poll).Settled upper level := by
  have hlast : (LogStream.step upper level stream .poll).lastIdx =
      ((stream.owed upper level).rtake LIMIT).foldl (fun _ entry => entry.idx) stream.lastIdx := by
    unfold LogStream.step LogStream.owed
    dsimp only
    rw [getLogs_eq h]
  have hbuffer : (LogStream.step upper level stream .poll).buffer = stream.buffer := rfl
  have hsublist : (stream.owed upper level).Sublist stream.buffer.items := List.filter_sublist
  rcases List.eq_nil_or_concat' (stream.owed upper level) with hnone | ⟨sooner, last, howed⟩
  · rw [hnone] at hlast
    refine ⟨h, hlast ▸ hbounded, ?_⟩
    unfold LogStream.owed at hnone ⊢
    rw [hlast]
    exact hnone
  · -- The page ends with the last entry that is owed.
    have hpage : (stream.owed upper level).rtake LIMIT = sooner.rtake 49 ++ [last] := by
      rw [howed]
      exact List.rtake_concat_succ _ _ _
    rw [hpage, lastIdx_poll] at hlast
    have hmem : last ∈ stream.owed upper level := by rw [howed]; simp
    have hafter : stream.lastIdx < last.idx := by
      have howes := (List.mem_filter.mp hmem).2
      exact (of_decide_eq_true howes).1
    refine ⟨h, ?_, ?_⟩
    · rw [hlast]
      exact (h.numbered last (hsublist.subset hmem)).2
    · unfold LogStream.owed
      rw [hlast, hbuffer, List.filter_eq_nil_iff]
      intro entry hentry hlater
      obtain ⟨hidx, hwanted⟩ := of_decide_eq_true hlater
      have hsorted := h.sorted.sublist hsublist
      have howes : entry ∈ stream.owed upper level :=
        List.mem_filter.mpr ⟨hentry, decide_eq_true ⟨hafter.trans hidx, hwanted⟩⟩
      rw [howed] at howes hsorted
      rcases List.mem_append.mp howes with hsooner | hentry
      · have hle := (List.pairwise_append.mp hsorted).2.2 entry hsooner last (List.mem_singleton_self _)
        omega
      · rw [List.mem_singleton.mp hentry] at hidx
        omega

-- The records of a burst are owed, if they fit into the buffer.
theorem owed_emitAll (h : stream.Settled upper level) (hburst : burst.length ≤ MAX_SIZE) :
    LogStream.owed upper level { stream with buffer := burst.foldl LogBuffer.emit stream.buffer } =
      (entriesFrom stream.buffer.counter burst).filter fun entry =>
        wanted upper level entry.toLogRecord := by
  have hfits : (entriesFrom stream.buffer.counter burst).length ≤ MAX_SIZE := by
    rwa [length_entriesFrom]
  obtain ⟨older, hsuffix, hitems⟩ := RingBuffer.exists_pushAll hfits h.kept.short
  have holder : older.filter (fun entry =>
      stream.lastIdx < entry.idx ∧ wanted upper level entry.toLogRecord) = [] := by
    have hsublist := hsuffix.sublist.filter fun entry =>
      (stream.lastIdx < entry.idx ∧ wanted upper level entry.toLogRecord : Bool)
    have hsettled := h.settled
    unfold LogStream.owed at hsettled
    rw [hsettled] at hsublist
    exact List.sublist_nil.mp hsublist
  unfold LogStream.owed
  rw [LogBuffer.emitAll_eq]
  dsimp only
  rw [hitems, List.filter_append, holder, List.nil_append]
  refine List.filter_congr fun entry hentry => ?_
  have hnew : stream.lastIdx < entry.idx := h.bounded.trans_lt (mem_entriesFrom hentry).1
  simp [hnew]

theorem run_burst (stream : LogStream) (burst : List LogRecord) :
    LogStream.run upper level stream (burst.map LogEvent.emit ++ [.poll]) =
      LogStream.step upper level
        { stream with buffer := burst.foldl LogBuffer.emit stream.buffer } .poll := by
  have hemit : LogStream.run upper level stream (burst.map LogEvent.emit) =
      { stream with buffer := burst.foldl LogBuffer.emit stream.buffer } := by
    unfold LogStream.run
    induction burst generalizing stream with
    | nil => rfl
    | cons record burst ih =>
        rw [List.map_cons, List.foldl_cons, ih, List.foldl_cons, LogStream.step]
  unfold LogStream.run at hemit ⊢
  rw [List.foldl_append, hemit]
  rfl

-- The entries of the bursts, and those of them that fit on their pages.
def due (upper : String → String) (level : String) (counter : Nat) (bursts : List (List LogRecord)) :
    List LogEntry :=
  (entriesFrom counter bursts.flatten).filter fun entry => wanted upper level entry.toLogRecord

def paged (upper : String → String) (level : String) :
    Nat → List (List LogRecord) → List LogEntry
  | _, [] => []
  | counter, burst :: bursts =>
      (due upper level counter [burst]).rtake LIMIT ++
        paged upper level (counter + burst.length) bursts

theorem due_cons (counter : Nat) :
    due upper level counter (burst :: bursts) =
      due upper level counter [burst] ++ due upper level (counter + burst.length) bursts := by
  unfold due
  rw [List.flatten_cons, entriesFrom_append, List.filter_append, List.flatten_singleton]

theorem sent_polls (h : stream.Settled upper level)
    (hbursts : ∀ burst ∈ bursts, burst.length ≤ MAX_SIZE) :
    (LogStream.run upper level stream (polls bursts)).sent =
      stream.sent ++ paged upper level stream.buffer.counter bursts := by
  induction bursts generalizing stream with
  | nil => exact (List.append_nil _).symm
  | cons burst bursts ih =>
      have hburst := hbursts burst List.mem_cons_self
      have hkept : (burst.foldl LogBuffer.emit stream.buffer).Kept := h.kept.emitAll burst
      have hcounter : (burst.foldl LogBuffer.emit stream.buffer).counter =
          stream.buffer.counter + burst.length := by rw [LogBuffer.emitAll_eq]
      have hsettled : (LogStream.step upper level
          { stream with buffer := burst.foldl LogBuffer.emit stream.buffer } .poll).Settled
            upper level := by
        refine settled_poll hkept ?_
        dsimp only
        rw [hcounter]
        exact h.bounded.trans (Nat.le_add_right _ _)
      have hrun : LogStream.run upper level stream (polls (burst :: bursts)) =
          LogStream.run upper level (LogStream.step upper level
            { stream with buffer := burst.foldl LogBuffer.emit stream.buffer } .poll)
              (polls bursts) := by
        rw [← run_burst]
        exact List.foldl_append
      rw [hrun, ih hsettled fun other hother => hbursts other (List.mem_cons_of_mem burst hother),
        sent_poll hkept, owed_emitAll h hburst, paged, List.append_assoc]
      unfold due
      rw [List.flatten_singleton, ← hcounter]
      rfl

theorem length_rtake {α : Type*} (n : Nat) (xs : List α) : (xs.rtake n).length = min n xs.length := by
  unfold List.rtake
  rw [List.length_drop]
  omega

theorem length_paged_le (counter : Nat) (bursts : List (List LogRecord)) :
    (paged upper level counter bursts).length ≤ (due upper level counter bursts).length := by
  induction bursts generalizing counter with
  | nil => exact Nat.le_refl _
  | cons burst bursts ih =>
      have hrest := ih (counter + burst.length)
      rw [@due_cons upper level burst bursts, paged, List.length_append, List.length_append, length_rtake]
      omega

-- Nothing is lost exactly if every page has room for what is due.
theorem paged_eq_due_iff (counter : Nat) :
    paged upper level counter bursts = due upper level counter bursts ↔
      ∀ burst ∈ bursts, burst.countP (wanted upper level) ≤ LIMIT := by
  induction bursts generalizing counter with
  | nil => simp [paged, due, entriesFrom]
  | cons burst bursts ih =>
      have hlength : (due upper level counter [burst]).length = burst.countP (wanted upper level) := by
        have hmap : (entriesFrom counter burst).countP (wanted upper level ∘ LogEntry.toLogRecord) =
            burst.countP (wanted upper level) := by rw [← List.countP_map, map_entriesFrom]
        unfold due
        rw [List.flatten_singleton, ← List.countP_eq_length_filter]
        exact hmap
      rw [paged, @due_cons upper level burst bursts, List.forall_mem_cons, ← ih (counter + burst.length), ← hlength]
      constructor
      · intro heq
        have hlengths := congrArg List.length heq
        have hle := @length_paged_le upper level (counter + burst.length) bursts
        rw [List.length_append, List.length_append, length_rtake] at hlengths
        have hfits : (due upper level counter [burst]).length ≤ LIMIT := by omega
        refine ⟨hfits, ?_⟩
        rw [List.rtake, Nat.sub_eq_zero_of_le hfits] at heq
        exact List.append_cancel_left heq
      · rintro ⟨hfits, hrest⟩
        rw [List.rtake, Nat.sub_eq_zero_of_le hfits, hrest]
        rfl

theorem opened_settled (before : List LogRecord) :
    (opened upper level before).Settled upper level :=
  settled_poll (LogBuffer.kept_empty.emitAll before) (Nat.zero_le _)

theorem counter_opened (before : List LogRecord) :
    (opened upper level before).buffer.counter = before.length := by
  have hbuffer : (opened upper level before).buffer = before.foldl LogBuffer.emit {} := rfl
  rw [hbuffer, LogBuffer.emitAll_eq]
  exact Nat.zero_add _

-- After its first poll a connection sends every record of its level exactly once and in order, if
-- and only if no poll finds more new records of the level than a page holds.
theorem stream_complete_iff (before : List LogRecord)
    (hbursts : ∀ burst ∈ bursts, burst.length < MAX_SIZE) :
    (LogStream.run upper level (opened upper level before) (polls bursts)).sent =
        (opened upper level before).sent ++ due upper level before.length bursts ↔
      ∀ burst ∈ bursts, burst.countP (wanted upper level) ≤ LIMIT := by
  rw [sent_polls (opened_settled before) fun burst hburst => Nat.le_of_lt (hbursts burst hburst),
    counter_opened, List.append_cancel_left_eq, paged_eq_due_iff]

def tick : LogRecord where
  level := "INFO"
  name := "host.main"
  msg := "tick"

theorem ticks_streamed :
    (LogStream.run String.toUpper "info" (opened String.toUpper "info" [tick])
        (polls [[], [tick, { tick with level := "DEBUG" }, tick]])).sent =
      (opened String.toUpper "info" [tick]).sent ++
        due String.toUpper "info" 1 [[], [tick, { tick with level := "DEBUG" }, tick]] := by
  refine (stream_complete_iff [tick] ?_).mpr ?_
  · decide
  · intro burst hburst
    have hlength : burst.length ≤ 3 := by
      rcases List.mem_cons.mp hburst with rfl | hburst
      · decide
      · rw [List.mem_singleton.mp hburst]
        decide
    exact List.countP_le_length.trans (hlength.trans (by decide))

def burst51 : List LogRecord := List.replicate 51 tick

-- Of 51 records between two polls the first one is never sent.
theorem tick_lost :
    burst51.length < MAX_SIZE ∧
      (LogStream.run String.toUpper "" (opened String.toUpper "" []) (polls [burst51, []])).sent =
        (opened String.toUpper "" []).sent ++ (due String.toUpper "" 0 [burst51, []]).drop 1 ∧
      (LogStream.run String.toUpper "" (opened String.toUpper "" []) (polls [burst51, []])).sent ≠
        (opened String.toUpper "" []).sent ++ due String.toUpper "" 0 [burst51, []] := by
  have hshort : burst51.length < MAX_SIZE := by decide
  have hbursts : ∀ burst ∈ [burst51, []], burst.length ≤ MAX_SIZE := by
    simp [hshort.le]
  have hwanted (record : LogRecord) : wanted String.toUpper "" record = true := by simp [wanted]
  have hdue : due String.toUpper "" 0 [burst51, []] = entriesFrom 0 burst51 := by
    unfold due
    simp [hwanted]
  have hpaged : paged String.toUpper "" 0 [burst51, []] = (entriesFrom 0 burst51).drop 1 := by
    have hpage : due String.toUpper "" 0 [burst51] = entriesFrom 0 burst51 := by
      unfold due
      simp [hwanted]
    rw [paged, hpage, List.rtake, length_entriesFrom]
    exact List.append_nil _
  rw [sent_polls (opened_settled []) hbursts, counter_opened, hdue]
  refine ⟨hshort, congrArg _ hpaged, fun heq => ?_⟩
  have hlength := congrArg List.length (List.append_cancel_left (heq.symm.trans (congrArg _ hpaged)))
  rw [List.length_drop, length_entriesFrom] at hlength
  exact absurd hlength (by decide)

end Polling

end EvoClaw.Dashboard
