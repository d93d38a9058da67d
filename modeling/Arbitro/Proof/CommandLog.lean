import Arbitro.Server.CommandLog

/-!
# What a replay of the command log applies

The file is written only at its end, so the question is where a record was torn: replay
takes the bytes behind a torn record for the rest of it.

* `replay_ledger`: if only the last bytes ever written can be a torn record, replay
  applies exactly the commands recorded, over all sessions.
* `replay_behind_torn`: a command recorded after a crash inside a record is lost.
-/

namespace Arbitro.CommandLog

open LittleEndian List

variable {crc : Crc32} {command : Bytes} {commands : List Bytes} {sessions : List Session} {s : Session} {k : ℕ}
  {l : Ledger}

/-! ## Records in the file -/

theorem record_eq_ok {file file' : Bytes} (h : record crc file command = .ok file') :
    command.length ≤ maxReplayEntryLen ∧ file' = file ++ frame crc command := by
  unfold record at h
  split at h
  · cases h
  · exact ⟨by omega, by simpa using h.symm⟩

@[simp] theorem length_frame : (frame crc command).length = 8 + command.length := by
  simp only [frame, length_append, length_encode]

theorem decode_length (h : command.length ≤ maxReplayEntryLen) : decode (encode 4 command.length) = command.length := by
  apply decode_encode
  have hmax : maxReplayEntryLen < 256 ^ 4 := by decide
  omega

theorem decode_crc : decode (encode 4 (crc command).toNat) = (crc command).toNat := by
  apply decode_encode
  have hlt : (crc command).toNat < 2 ^ 32 := (crc command).toNat_lt
  omega

/-- What replay reads off the first bytes of a record. -/
theorem take_frame (crc : Crc32) (command : Bytes) (hk : 4 ≤ k) (rest : Bytes) :
    ((frame crc command ++ rest).take k).take 4 = encode 4 command.length := by
  rw [take_take, min_eq_left hk, frame, append_assoc, append_assoc]
  exact take_left' (length_encode _ _)

theorem replayEntry_frame (hne : command ≠ []) (hlen : command.length ≤ maxReplayEntryLen)
    {rest : Bytes} : replayEntry crc (frame crc command ++ rest) = some (some command, rest) := by
  have hpos : 0 < command.length := length_pos_iff.2 hne
  have hsize : (frame crc command ++ rest).length = 8 + command.length + rest.length := by
    rw [length_append, length_frame]
  have hdrop4 : (frame crc command ++ rest).drop 4
      = encode 4 (crc command).toNat ++ (command ++ rest) := by
    exact drop_left' (length_encode _ _)
  have hdrop8 : (frame crc command ++ rest).drop 8 = command ++ rest := by
    rw [frame, append_assoc]
    exact drop_left' (by simp)
  have hfirst : (frame crc command ++ rest).take 4 = encode 4 command.length := by
    have h := take_frame crc command (le_refl 4) rest
    rwa [take_take, min_self] at h
  have hlast : (frame crc command ++ rest).drop (8 + command.length) = rest := drop_left' length_frame
  unfold replayEntry
  simp only [hfirst, decode_length hlen, hdrop4, hdrop8, hlast, hsize]
  rw [if_neg (by omega), if_neg (by omega), if_neg (by omega), if_neg (by omega), if_neg (by omega)]
  rw [take_left' (length_encode _ _), decode_crc, take_left' rfl]
  simp [isCommand, hne]

theorem replayEntry_torn (hne : command ≠ []) (hlen : command.length ≤ maxReplayEntryLen)
    (hk : k < (frame crc command).length) : replayEntry crc ((frame crc command).take k) = none := by
  have hpos : 0 < command.length := length_pos_iff.2 hne
  have hsize : ((frame crc command).take k).length = k := length_take_of_le hk.le
  rw [length_frame] at hk
  unfold replayEntry
  simp only [hsize]
  by_cases h4 : k < 4
  · rw [if_pos h4]
  have hfirst : ((frame crc command).take k).take 4 = encode 4 command.length := by
    simpa using take_frame crc command (not_lt.1 h4) []
  rw [if_neg h4, hfirst, decode_length hlen, if_neg (by omega), if_neg (by omega), if_pos hk]
  exact ite_self none

/-! ## The file of a ledger -/

/-- A command that replay accepts. -/
def Accepted (command : Bytes) : Prop := command ≠ [] ∧ command.length ≤ maxReplayEntryLen

theorem reads_frames (h : ∀ c ∈ commands, Accepted c) {rest : Bytes} :
    Scan.Reads (replayEntry crc) (commands.flatMap (frame crc) ++ rest) commands.length commands rest := by
  induction commands with
  | nil => exact .nil rest
  | cons c commands ih =>
    have hc := h c mem_cons_self
    rw [flatMap_cons, append_assoc]
    exact .cons (replayEntry_frame hc.1 hc.2) (ih fun d hd => h d (mem_cons_of_mem _ hd))

/-- Records, and behind them something replay stops at. -/
theorem replay_frames (h : ∀ c ∈ commands, Accepted c) {tail : Bytes}
    (htail : replayEntry crc tail = none) : replay crc (commands.flatMap (frame crc) ++ tail) = commands := by
  have hfuel : commands.length ≤ (commands.flatMap (frame crc) ++ tail).length + 1 := by
    have hle : commands.length ≤ (commands.flatMap (frame crc)).length := length_le_concat fun c => by simp
    rw [length_append]
    omega
  unfold replay
  rw [Scan.walk_of_reads (reads_frames h) htail hfuel]

/-- The file holds the recorded commands, and nothing else. -/
structure Ledger.Whole (crc : Crc32) (l : Ledger) : Prop where
  file : l.file = l.recorded.flatMap (frame crc)
  accepted : ∀ c ∈ l.recorded, Accepted c

theorem Ledger.Whole.record (hl : l.Whole crc) (hne : command ≠ []) :
    (l.record crc command).Whole crc := by
  unfold Ledger.record
  cases h : CommandLog.record crc l.file command with
  | error e => exact hl
  | ok file =>
    obtain ⟨hlen, rfl⟩ := record_eq_ok h
    refine ⟨?_, forall_mem_append.2 ⟨hl.accepted, forall_mem_singleton.2 ⟨hne, hlen⟩⟩⟩
    rw [flatMap_append, flatMap_singleton, hl.file]

/-! ## Sessions -/

/-- A crash has left a part of a record in the file. -/
def Ending.Torn : Ending → Prop
  | .clean => False
  | .crash command written => command.length ≤ maxReplayEntryLen ∧ 0 < written

/-- Nothing of the session reaches the file. -/
def Session.Silent (s : Session) : Prop :=
  (∀ c ∈ s.commands, maxReplayEntryLen < c.length) ∧ ¬ s.ending.Torn

/-- No command is empty, and a crash in `record` leaves less than the record. -/
def Session.Proper (s : Session) : Prop :=
  (∀ c ∈ s.commands, c ≠ []) ∧
    match s.ending with
    | .clean => True
    | .crash command written => command ≠ [] ∧ written < 8 + command.length

/-- Only the last bytes that are ever written can be a torn record. -/
def TornLast : List Session → Prop
  | [] => True
  | s :: rest => s.Proper ∧ (s.ending.Torn → ∀ t ∈ rest, t.Silent) ∧ TornLast rest

instance (e : Ending) : Decidable e.Torn :=
  match e with
  | .clean => inferInstanceAs (Decidable False)
  | .crash command written => inferInstanceAs (Decidable (command.length ≤ maxReplayEntryLen ∧ 0 < written))

instance (s : Session) : Decidable s.Silent := inferInstanceAs (Decidable (_ ∧ _))

instance (s : Session) : Decidable s.Proper :=
  have : Decidable (match s.ending with
      | .clean => True
      | .crash command written => command ≠ [] ∧ written < 8 + command.length) :=
    match s.ending with
    | .clean => inferInstanceAs (Decidable True)
    | .crash command written => inferInstanceAs (Decidable (command ≠ [] ∧ written < 8 + command.length))
  inferInstanceAs (Decidable (_ ∧ _))

instance : ∀ sessions : List Session, Decidable (TornLast sessions)
  | [] => isTrue trivial
  | s :: rest =>
    have := instDecidableTornLast rest
    inferInstanceAs (Decidable (s.Proper ∧ (s.ending.Torn → ∀ t ∈ rest, t.Silent) ∧ TornLast rest))

theorem leaves_of_not_torn {e : Ending} (h : ¬ e.Torn) : e.leaves crc = [] := by
  cases e with
  | clean => rfl
  | crash command written =>
    show torn crc command written = []
    unfold torn
    cases hrec : record crc [] command with
    | error e => rfl
    | ok file =>
      have hw : written = 0 := by
        by_contra hpos
        exact h ⟨(record_eq_ok hrec).1, by omega⟩
      simp only [hw, take_zero]

theorem session_of_silent (hs : s.Silent) : l.session crc s = l := by
  have hrefuse : ∀ commands : List Bytes, (∀ c ∈ commands, maxReplayEntryLen < c.length) →
      commands.foldl (Ledger.record crc) l = l := by
    intro commands hlong
    refine foldlRecOn commands _ (motive := (· = l)) rfl ?_
    rintro _ rfl c hc
    unfold Ledger.record CommandLog.record
    rw [if_pos (hlong c hc)]
  unfold Ledger.session
  rw [hrefuse s.commands hs.1, leaves_of_not_torn hs.2]
  simp

theorem sessions_of_silent (h : ∀ s ∈ sessions, s.Silent) : sessions.foldl (Ledger.session crc) l = l := by
  refine foldlRecOn sessions _ (motive := (· = l)) rfl ?_
  rintro _ rfl s hs
  exact session_of_silent (h s hs)

theorem replayEntry_leaves (hs : s.Proper) : replayEntry crc (s.ending.leaves crc) = none := by
  obtain ⟨commands, ending⟩ := s
  cases ending with
  | clean => rfl
  | crash command written =>
    obtain ⟨hne, hw⟩ := hs.2
    show replayEntry crc (torn crc command written) = none
    unfold torn
    cases h : CommandLog.record crc [] command with
    | error e => rfl
    | ok file =>
      obtain ⟨hlen, rfl⟩ := record_eq_ok h
      exact replayEntry_torn hne hlen (by rw [length_frame]; exact hw)

theorem replay_sessions (h : TornLast sessions) (hl : l.Whole crc) :
    replay crc (sessions.foldl (Ledger.session crc) l).file = (sessions.foldl (Ledger.session crc) l).recorded := by
  induction sessions generalizing l with
  | nil =>
    have hend : replay crc (l.recorded.flatMap (frame crc) ++ []) = l.recorded := replay_frames hl.accepted rfl
    rwa [append_nil, ← hl.file] at hend
  | cons s rest ih =>
    obtain ⟨hs, hlast, hrest⟩ := h
    have hrec : (s.commands.foldl (Ledger.record crc) l).Whole crc :=
      foldlRecOn s.commands _ (motive := fun l : Ledger => l.Whole crc) hl fun _ hl c hc => hl.record (hs.1 c hc)
    rw [foldl_cons]
    by_cases htorn : s.ending.Torn
    · -- the torn record stays the end of the file
      rw [sessions_of_silent (hlast htorn)]
      have hstop : replayEntry crc (s.ending.leaves crc) = none := replayEntry_leaves hs
      have hend := replay_frames hrec.accepted hstop
      rwa [← hrec.file] at hend
    apply ih hrest
    have hfile : (l.session crc s) = s.commands.foldl (Ledger.record crc) l := by
      unfold Ledger.session
      rw [leaves_of_not_torn htorn]
      simp
    rw [hfile]
    exact hrec

/-- **Replay applies the recorded commands, in order, over all sessions**, if a record that
a crash has torn is the last thing that is ever written. -/
theorem replay_ledger (crc : Crc32) (sessions : List Session) (h : TornLast sessions) :
    replay crc (ledger crc sessions).file = (ledger crc sessions).recorded :=
  replay_sessions h ⟨rfl, by simp⟩

theorem replay_ledger_after_crash :
    replay sampleCrc (ledger sampleCrc [⟨[[1], [4, 5]], .clean⟩, ⟨[[2, 9]], .crash [3, 3] 9⟩]).file
      = [[1], [4, 5], [2, 9]] :=
  replay_ledger sampleCrc _ (by decide)

/-- One byte of a record, left by a crash, makes replay miss the command that the next
session has recorded: it is taken for the rest of that record. -/
theorem replay_behind_torn :
    (ledger sampleCrc [⟨[], .crash [1, 2] 1⟩, ⟨[[3]], .clean⟩]).recorded = [[3]] ∧
      replay sampleCrc (ledger sampleCrc [⟨[], .crash [1, 2] 1⟩, ⟨[[3]], .clean⟩]).file = [] :=
  ⟨rfl, rfl⟩

end Arbitro.CommandLog
