import MemoryKit.Proofs.ProgramEffects

/-!
# Output that is cut off

A report is written in pieces, and every write can fail. For a writer that takes bytes up to a limit
it can still be said what is left of the whole text, wherever the limit falls: the bytes up to the
limit are received, the write that is refused ends the report without a flush, and a text that fits
is flushed once, behind its last byte. Neither the pieces of the text nor those in which the writer
takes them make a difference.
-/

namespace MemoryKit

/-! ## 1. Writers -/

/-- A place that bytes are written to, and what can be seen of it. A write that is interrupted is
tried again, and its last answer is the one that counts. -/
structure Writer (σ ε : Type) where
  /-- Offers bytes and says how many of them are taken, from the first one on. -/
  write : σ → Bytes → σ × Except ε Nat
  flush : σ → σ × Except ε Unit
  /-- The error where bytes are offered and none is taken. -/
  noneTaken : ε
  /-- All bytes that have been taken. -/
  received : σ → Bytes
  /-- The number of flushes. -/
  flushes : σ → Nat

namespace Writer

variable {σ ε : Type} (w : Writer σ ε) {before middle after : σ} {bytes bytes' : Bytes}

/-- The error that an answer to a write comes to, if none of the bytes is taken. -/
def refusal? : Except ε Nat → Option ε
  | .error error => some error
  | .ok 0 => some w.noneTaken
  | .ok (_ + 1) => none

def writeAll (before : σ) : Bytes → σ × Except ε Unit
  | [] => (before, .ok ())
  | byte :: bytes =>
    match w.write before (byte :: bytes) with
    | (after, .error error) => (after, .error error)
    | (after, .ok 0) => (after, .error w.noneTaken)
    | (after, .ok (count + 1)) => writeAll after (bytes.drop count)
termination_by bytes => bytes.length
decreasing_by
  rw [List.length_drop, List.length_cons]
  omega

/-- Writes texts in order up to the first failure, and flushes after the last one. -/
def print (before : σ) : List String → σ × Except ε Unit
  | [] => w.flush before
  | text :: texts =>
    match w.writeAll before (utf8 text) with
    | (after, .ok ()) => print after texts
    | (after, .error error) => (after, .error error)

/-- From one state to another the bytes have been received, without a flush. -/
structure Receives (before : σ) (bytes : Bytes) (after : σ) : Prop where
  received_eq : w.received after = w.received before ++ bytes
  flushes_eq : w.flushes after = w.flushes before

variable {w}

theorem Receives.refl (before : σ) : w.Receives before [] before where
  received_eq := (List.append_nil _).symm
  flushes_eq := rfl

theorem Receives.trans (h : w.Receives before bytes middle) (h' : w.Receives middle bytes' after) :
    w.Receives before (bytes ++ bytes') after where
  received_eq := by rw [h'.received_eq, h.received_eq, List.append_assoc]
  flushes_eq := h'.flushes_eq.trans h.flushes_eq

/-- The bytes have been received when a write is refused, and its error is the result. -/
def Fails (w : Writer σ ε) (before : σ) (bytes : Bytes) (after : σ × Except ε Unit) : Prop :=
  ∃ full offered error, w.Receives before bytes full ∧ offered ≠ [] ∧
    w.refusal? (w.write full offered).2 = some error ∧
    after = ((w.write full offered).1, .error error)

/-- A failure after a part is a failure after both. -/
theorem Receives.trans_fails {result : σ × Except ε Unit} (h : w.Receives before bytes middle)
    (h' : w.Fails middle bytes' result) : w.Fails before (bytes ++ bytes') result := by
  obtain ⟨full, offered, error, hfull, hwrite⟩ := h'
  exact ⟨full, offered, error, h.trans hfull, hwrite⟩

/-- What becomes of a text of which no more than so many bytes are taken. The last state is the one
behind all writes of a text that fits. -/
structure Delivers (w : Writer σ ε) (text : Bytes) (limit : Nat) (before last : σ)
    (after : σ × Except ε Unit) : Prop where
  received_eq : w.received after.1 = w.received before ++ text.take (min limit text.length)
  ok_iff : after.2 = .ok () ↔ text.length ≤ limit ∧ (w.flush last).2 = .ok ()
  /-- A text that does not fit ends with the error of the write that is refused. -/
  refused : limit < text.length →
    w.Fails before (text.take limit) after ∧ w.flushes after.1 = w.flushes before
  /-- A text that fits is flushed once, behind its last byte, and the flush gives the result. -/
  flushed : text.length ≤ limit →
    w.Receives before text last ∧ after = w.flush last ∧
      w.flushes after.1 = w.flushes before + 1

end Writer

/-! ## 2. Limits -/

/-- A writer that takes bytes up to a limit, in pieces of any size, and refuses those behind it. Its
flush can fail or not. -/
structure LimitedWriter (σ ε : Type) extends Writer σ ε where
  /-- The number of bytes that it takes yet, if it is bounded. -/
  room : σ → Option Nat
  /-- The bytes that are taken are the first of those offered, and there was room for them. -/
  takes {before after : σ} {offered : Bytes} {count : Nat} :
    offered ≠ [] → write before offered = (after, .ok (count + 1)) →
    count < offered.length ∧ (∀ n ∈ room before, count < n) ∧
      toWriter.Receives before (offered.take (count + 1)) after ∧
      room after = (room before).map (· - (count + 1))
  /-- Bytes are refused only where there is no room for the first of them. -/
  refuses {before : σ} {offered : Bytes} :
    offered ≠ [] → (toWriter.refusal? (write before offered).2).isSome →
    room before = some 0 ∧ toWriter.Receives before [] (write before offered).1
  received_flush (before : σ) : received (flush before).1 = received before
  flushes_flush (before : σ) : flushes (flush before).1 = flushes before + 1

namespace LimitedWriter

variable {σ ε : Type} (w : LimitedWriter σ ε) {before : σ} {bytes : Bytes} {texts : List String}
  {limit : Nat}

/-- A write takes something where there is room. -/
theorem room_of_refusal {after : σ} {offered : Bytes} {answer : Except ε Nat}
    (hne : offered ≠ []) (hwrite : w.write before offered = (after, answer))
    (hrefusal : (w.refusal? answer).isSome) : w.room before = some 0 := by
  refine (w.refuses hne ?_).1
  rwa [hwrite]

/-- Bytes that fit are taken, in as many calls as it needs, and the room shrinks by their number.
-/
theorem exists_writeAll_of_le (hroom : w.room before = some limit) (hle : bytes.length ≤ limit) :
    ∃ after, w.writeAll before bytes = (after, .ok ()) ∧ w.Receives before bytes after ∧
      w.room after = some (limit - bytes.length) := by
  fun_induction w.writeAll before bytes generalizing limit with
  | case1 before => exact ⟨before, rfl, .refl before, hroom⟩
  | case2 before byte bytes after error hwrite =>
    have hzero := w.room_of_refusal (List.cons_ne_nil byte bytes) hwrite rfl
    cases hroom.symm.trans hzero
    cases hle
  | case3 before byte bytes after hwrite =>
    have hzero := w.room_of_refusal (List.cons_ne_nil byte bytes) hwrite rfl
    cases hroom.symm.trans hzero
    cases hle
  | case4 before byte bytes middle count hwrite ih =>
    -- The first write leaves room for the bytes that it has not taken.
    obtain ⟨hcount, -, hfirst, hmiddle⟩ := w.takes (List.cons_ne_nil byte bytes) hwrite
    rw [hroom, Option.map_some] at hmiddle
    rw [List.length_cons] at hcount hle
    have hrest : (bytes.drop count).length ≤ limit - (count + 1) := by
      rw [List.length_drop]
      omega
    obtain ⟨after, hafter, hlast, hroom'⟩ := ih hmiddle hrest
    have hall := hfirst.trans hlast
    rw [← List.drop_succ_cons, List.take_append_drop] at hall
    have hleft :
        limit - (count + 1) - (bytes.drop count).length = limit - (byte :: bytes).length := by
      rw [List.length_drop, List.length_cons]
      omega
    rw [hleft] at hroom'
    exact ⟨after, hafter, hall, hroom'⟩

/-- Bytes that do not fit are taken up to the limit, and then the write fails. -/
theorem fails_writeAll_of_lt (hroom : w.room before = some limit) (hlt : limit < bytes.length) :
    w.Fails before (bytes.take limit) (w.writeAll before bytes) := by
  fun_induction w.writeAll before bytes generalizing limit with
  | case1 before => cases hlt
  | case2 before byte bytes after error hwrite =>
    have hzero := w.room_of_refusal (List.cons_ne_nil byte bytes) hwrite rfl
    cases hroom.symm.trans hzero
    exact ⟨before, byte :: bytes, error, .refl before, List.cons_ne_nil byte bytes,
      by rw [hwrite]; rfl, by rw [hwrite]⟩
  | case3 before byte bytes after hwrite =>
    have hzero := w.room_of_refusal (List.cons_ne_nil byte bytes) hwrite rfl
    cases hroom.symm.trans hzero
    exact ⟨before, byte :: bytes, w.noneTaken, .refl before, List.cons_ne_nil byte bytes,
      by rw [hwrite]; rfl, by rw [hwrite]⟩
  | case4 before byte bytes middle count hwrite ih =>
    obtain ⟨-, hfits, hfirst, hmiddle⟩ := w.takes (List.cons_ne_nil byte bytes) hwrite
    have hcount := hfits limit hroom
    rw [hroom, Option.map_some] at hmiddle
    rw [List.length_cons] at hlt
    -- a write that takes a part leaves less room and fewer bytes
    have hrest : limit - (count + 1) < (bytes.drop count).length := by
      rw [List.length_drop]
      omega
    have hall := hfirst.trans_fails (ih hmiddle hrest)
    rwa [← List.drop_succ_cons, ← List.take_add, Nat.add_sub_cancel' hcount] at hall

/-- Texts that fit are taken one after the other, and the sink is flushed once. -/
theorem exists_print_of_le (hroom : w.room before = some limit)
    (hle : (texts.flatMap utf8).length ≤ limit) :
    ∃ last, w.Receives before (texts.flatMap utf8) last ∧ w.print before texts = w.flush last := by
  induction texts generalizing before limit with
  | nil => exact ⟨before, .refl before, rfl⟩
  | cons text texts ih =>
    rw [List.flatMap_cons, List.length_append] at hle
    have htext : (utf8 text).length ≤ limit := by omega
    obtain ⟨middle, hwrite, hfirst, hmiddle⟩ := w.exists_writeAll_of_le hroom htext
    obtain ⟨last, hrest, hprint⟩ := ih hmiddle (by omega)
    refine ⟨last, hfirst.trans hrest, ?_⟩
    rw [Writer.print, hwrite]
    exact hprint

/-- Texts that do not fit are taken up to the limit, and nothing follows the failure. -/
theorem fails_print_of_lt (hroom : w.room before = some limit)
    (hlt : limit < (texts.flatMap utf8).length) :
    w.Fails before ((texts.flatMap utf8).take limit) (w.print before texts) := by
  induction texts generalizing before limit with
  | nil => cases hlt
  | cons text texts ih =>
    rw [List.flatMap_cons, List.length_append] at hlt
    rw [Writer.print, List.flatMap_cons]
    -- The limit falls behind the first text, or into it.
    by_cases hle : (utf8 text).length ≤ limit
    · obtain ⟨middle, hwrite, hfirst, hmiddle⟩ := w.exists_writeAll_of_le hroom hle
      rw [hwrite, List.take_append, List.take_of_length_le hle]
      exact hfirst.trans_fails (ih hmiddle (by omega))
    · obtain ⟨full, offered, error, hfull, hne, hrefusal, hwrite⟩ :=
        w.fails_writeAll_of_lt hroom (Nat.lt_of_not_le hle)
      rw [hwrite, List.take_append_of_le_length (by omega)]
      exact ⟨full, offered, error, hfull, hne, hrefusal, rfl⟩

theorem delivers_of_fails {text : Bytes} {last : σ} {result : σ × Except ε Unit}
    (hlt : limit < text.length) (h : w.Fails before (text.take limit) result) :
    w.Delivers text limit before last result := by
  obtain ⟨full, offered, error, hfull, hne, hrefusal, rfl⟩ := id h
  obtain ⟨-, hrefused⟩ := w.refuses hne (Option.isSome_of_eq_some hrefusal)
  have hall := hfull.trans hrefused
  rw [List.append_nil] at hall
  exact {
    received_eq := by rw [hall.received_eq, Nat.min_eq_left (Nat.le_of_lt hlt)]
    ok_iff := ⟨nofun, fun hok => absurd hok.1 (Nat.not_le_of_lt hlt)⟩
    refused := fun _ => ⟨h, hall.flushes_eq⟩
    flushed := fun hle => absurd hle (Nat.not_le_of_lt hlt) }

theorem delivers_flush {text : Bytes} {last : σ} (hle : text.length ≤ limit)
    (h : w.Receives before text last) : w.Delivers text limit before last (w.flush last) where
  received_eq := by
    rw [w.received_flush, h.received_eq, Nat.min_eq_right hle, List.take_length]
  ok_iff := ⟨fun hok => ⟨hle, hok⟩, fun hok => hok.2⟩
  refused hlt := absurd hle (Nat.not_le_of_lt hlt)
  flushed _ := ⟨h, rfl, by rw [w.flushes_flush, h.flushes_eq]⟩

/-- A text is delivered up to the limit, whatever pieces it is printed in. -/
theorem exists_delivers_print (texts : List String) (hroom : w.room before = some limit) :
    ∃ last, w.Delivers (texts.flatMap utf8) limit before last (w.print before texts) := by
  rcases Nat.lt_or_ge limit (texts.flatMap utf8).length with hlt | hle
  · exact ⟨before, w.delivers_of_fails hlt (w.fails_print_of_lt hroom hlt)⟩
  · obtain ⟨last, hlast, hprint⟩ := w.exists_print_of_le hroom hle
    rw [hprint]
    exact ⟨last, w.delivers_flush hle hlast⟩

end LimitedWriter

/-! ## 3. Sinks -/

namespace Sink

variable {sink : Sink} {bytes bytes' : Bytes}

def room (sink : Sink) : Option Nat :=
  sink.limit.map (· - sink.written.length)

/-- Takes as many of the bytes as there is room for, and fails if there is none. -/
def take (sink : Sink) (bytes : Bytes) : Sink × Except SinkError Nat :=
  match sink.room with
  | none => ({ sink with written := sink.written ++ bytes }, .ok bytes.length)
  | some 0 => (sink, .error .full)
  | some (n + 1) =>
    ({ sink with written := sink.written ++ bytes.take (n + 1) }, .ok (min (n + 1) bytes.length))

theorem take_of_room_eq_zero (hroom : sink.room = some 0) :
    sink.take bytes = (sink, .error .full) := by
  rw [take, hroom]

/-- A sink with room takes at least one byte. -/
theorem exists_take_eq (hne : bytes ≠ []) (hroom : sink.room ≠ some 0) :
    ∃ count, count < bytes.length ∧ (∀ n ∈ sink.room, count < n) ∧
      sink.take bytes = ({ sink with written := sink.written ++ bytes.take (count + 1) },
        .ok (count + 1)) := by
  have hpos := List.length_pos_iff.2 hne
  unfold take
  split
  next hnone =>
    rw [hnone]
    refine ⟨bytes.length - 1, by omega, nofun, ?_⟩
    rw [Nat.sub_add_cancel hpos, List.take_length]
  next hzero => exact absurd hzero hroom
  next n hsome =>
    have hcount : min n (bytes.length - 1) + 1 = min (n + 1) bytes.length := by omega
    rw [hsome]
    refine ⟨min n (bytes.length - 1), by omega, ?_, ?_⟩
    · rintro _ ⟨rfl⟩
      omega
    · rw [hcount, ← List.take_eq_take_min]

theorem room_append (sink : Sink) (bytes : Bytes) :
    room { sink with written := sink.written ++ bytes } =
      sink.room.map (· - bytes.length) := by
  unfold room
  cases sink.limit with
  | none => rfl
  | some limit =>
    simp only [Option.map_some]
    rw [List.length_append, Nat.sub_sub]

def writer : LimitedWriter Sink SinkError where
  write := take
  flush := flush
  noneTaken := .other "failed to write whole buffer"
  received := written
  flushes := flushes
  room := room
  takes {before after offered count} hne hwrite := by
    by_cases hroom : before.room = some 0
    · rw [take_of_room_eq_zero hroom] at hwrite
      cases hwrite
    · obtain ⟨taken, hcount, hfits, htake⟩ := exists_take_eq hne hroom
      rw [htake] at hwrite
      cases hwrite
      refine ⟨hcount, hfits, ⟨rfl, rfl⟩, ?_⟩
      rw [room_append, List.length_take_of_le hcount]
  refuses {before offered} hne hrefusal := by
    by_cases hroom : before.room = some 0
    · rw [take_of_room_eq_zero hroom]
      exact ⟨hroom, .refl before⟩
    · obtain ⟨taken, -, -, htake⟩ := exists_take_eq hne hroom
      rw [htake] at hrefusal
      cases hrefusal
  received_flush _ := rfl
  flushes_flush _ := rfl

theorem write_nil (sink : Sink) : sink.write [] = (sink, .ok ()) := by
  obtain ⟨limit, flushFails, written, flushes⟩ := sink
  cases limit with
  | none => rw [write, List.append_nil]
  | some limit => simp only [write, List.length_nil, Nat.zero_le, if_true, List.append_nil]

theorem write_of_room_eq_zero (hne : bytes ≠ []) (hroom : sink.room = some 0) :
    sink.write bytes = (sink, .error .full) := by
  obtain ⟨limit?, flushFails, written, flushes⟩ := sink
  obtain ⟨limit, rfl, hzero⟩ := Option.map_eq_some_iff.1 hroom
  have hpos := List.length_pos_iff.2 hne
  simp only [write]
  rw [hzero, if_neg (by omega), List.take_zero, List.append_nil]

/-- Bytes that fit are written before those behind them. -/
theorem write_append (h : ∀ n ∈ sink.room, bytes.length ≤ n) :
    sink.write (bytes ++ bytes') =
      write { sink with written := sink.written ++ bytes } bytes' := by
  unfold write
  unfold room at h
  cases hlimit : sink.limit with
  | none => simp only [List.append_assoc]
  | some limit =>
    rw [hlimit] at h
    have hle : bytes.length ≤ limit - sink.written.length := h _ rfl
    simp only [List.length_append]
    by_cases hrest : bytes'.length ≤ limit - (sink.written.length + bytes.length)
    · rw [if_pos hrest, if_pos (by omega), List.append_assoc]
    · rw [if_neg hrest, if_neg (by omega), List.take_append, List.take_of_length_le hle,
        List.append_assoc, Nat.sub_sub]

/-- A sink takes bytes as its writer does. -/
theorem writeAll_writer (sink : Sink) (bytes : Bytes) :
    writer.writeAll sink bytes = sink.write bytes := by
  fun_induction writer.writeAll sink bytes with
  | case1 sink => exact (write_nil sink).symm
  | case2 sink byte bytes after error hwrite =>
    have hne := List.cons_ne_nil byte bytes
    have hroom := writer.room_of_refusal hne hwrite rfl
    have htake := hwrite.symm.trans (take_of_room_eq_zero hroom)
    cases htake
    exact (write_of_room_eq_zero hne hroom).symm
  | case3 sink byte bytes after hwrite =>
    have hroom := writer.room_of_refusal (List.cons_ne_nil byte bytes) hwrite rfl
    cases hwrite.symm.trans (take_of_room_eq_zero hroom)
  | case4 sink byte bytes after count hwrite ih =>
    have hne := List.cons_ne_nil byte bytes
    by_cases hroom : sink.room = some 0
    · cases hwrite.symm.trans (take_of_room_eq_zero hroom)
    · obtain ⟨taken, hcount, hfits, htake⟩ := exists_take_eq hne hroom
      cases hwrite.symm.trans htake
      -- what was taken fits, so it can be written before the rest
      have hfirst : ∀ n ∈ sink.room, ((byte :: bytes).take (count + 1)).length ≤ n := by
        intro n hn
        rw [List.length_take_of_le hcount]
        exact hfits n hn
      rw [ih, ← write_append hfirst, ← List.drop_succ_cons, List.take_append_drop]

/-- The sink of the program prints as its writer does. -/
theorem print_writer (sink : Sink) (texts : List String) :
    writer.print sink texts = sink.print texts := by
  induction texts generalizing sink with
  | nil => rfl
  | cons text texts ih =>
    rw [Writer.print, Sink.print, writeAll_writer]
    rcases sink.write (utf8 text) with ⟨middle, _ | _⟩
    · rfl
    · exact ih middle

end Sink

/-! ## 4. Reports -/

namespace Report

inductive Item where
  | status (ok : Bool) (message : String)
  | field (label value : String)
  | error (message : String)
  | types
  | file (report : FileReport)

def Item.chunks (palette : Palette) : Item → List String
  | .status ok message => statusLine palette ok message
  | .field label value => fieldLine palette label value
  | .error message => errorLine palette message
  | .types => typesTable palette
  | .file report => fileLine palette report

theorem flatMap_utf8_pieces {pieces : String → List String} {chunks : List String}
    (h : ∀ chunk ∈ chunks, String.join (pieces chunk) = chunk) :
    (chunks.flatMap pieces).flatMap utf8 = chunks.flatMap utf8 := by
  rw [List.flatMap_assoc]
  apply List.flatMap_congr
  intro chunk hchunk
  rw [← utf8_join, h chunk hchunk]

/-- A report is delivered up to the limit of any writer, also where a command is written in several
pieces. The whole text is the one that a sink without a limit receives, and every sink is such a
writer. -/
theorem exists_delivers_item {σ ε : Type} (w : LimitedWriter σ ε) (palette : Palette) (item : Item)
    (pieces : String → List String)
    (hpieces : ∀ chunk ∈ item.chunks palette, String.join (pieces chunk) = chunk) {before : σ}
    {limit : Nat} (hroom : w.room before = some limit) :
    (∀ sink, Sink.writer.print sink (item.chunks palette) = sink.print (item.chunks palette)) ∧
      ∃ text, Sink.print {} (item.chunks palette) = ({ written := text, flushes := 1 }, .ok ()) ∧
        ∃ last, w.Delivers text limit before last
          (w.print before ((item.chunks palette).flatMap pieces)) := by
  have hunlimited : Sink.print {} (item.chunks palette) =
      ({ written := (item.chunks palette).flatMap utf8, flushes := 1 }, .ok ()) :=
    Sink.print_of_isOpen ⟨rfl, rfl⟩ (item.chunks palette)
  obtain ⟨last, hdelivers⟩ := w.exists_delivers_print ((item.chunks palette).flatMap pieces) hroom
  rw [flatMap_utf8_pieces hpieces] at hdelivers
  exact ⟨fun sink => Sink.print_writer sink (item.chunks palette),
    (item.chunks palette).flatMap utf8, hunlimited, last, hdelivers⟩

example : Sink.print { limit := some 21 } (statusLine .indexed false "é") =
    ({ limit := some 21, written := utf8 "\x1b[38;5;9m[FAIL]\x1b[0m " ++ [0xC3] },
      .error .full) := by
  decide

/-- The red colour is set in four pieces. -/
def redPieces (chunk : String) : List String :=
  if chunk = Palette.indexed.start .red then ["\x1b[", "38;", "5;9", "m"] else [chunk]

/-- The limit falls between the two bytes of the letter. -/
theorem exists_delivers_item_cutLetter :
    (∀ chunk ∈ (Item.status false "é").chunks .indexed, String.join (redPieces chunk) = chunk) ∧
    Sink.writer.room { limit := some 21 } = some 21 ∧
    (∀ sink, Sink.writer.print sink ((Item.status false "é").chunks .indexed) =
      sink.print ((Item.status false "é").chunks .indexed)) ∧
    ∃ last, Sink.writer.Delivers (utf8 "\x1b[38;5;9m[FAIL]\x1b[0m é\n") 21 { limit := some 21 } last
      (Sink.writer.print { limit := some 21 }
        (((Item.status false "é").chunks .indexed).flatMap redPieces)) := by
  have hpieces : ∀ chunk ∈ (Item.status false "é").chunks .indexed,
      String.join (redPieces chunk) = chunk := by
    intro chunk _
    unfold redPieces
    split
    next h =>
      rw [h]
      rfl
    next => rw [String.join_cons, String.join_nil, String.append_empty]
  have hroom : Sink.writer.room { limit := some 21 } = some 21 := rfl
  obtain ⟨hsinks, text, htext, last, hdelivers⟩ :=
    exists_delivers_item Sink.writer .indexed (.status false "é") redPieces hpieces hroom
  have hwhole : Sink.print {} ((Item.status false "é").chunks .indexed) =
      ({ written := utf8 "\x1b[38;5;9m[FAIL]\x1b[0m é\n", flushes := 1 }, .ok ()) := by
    decide
  have hwritten := congrArg (·.1.written) (hwhole.symm.trans htext)
  change _ = text at hwritten
  rw [← hwritten] at hdelivers
  exact ⟨hpieces, hroom, hsinks, last, hdelivers⟩

end Report

end MemoryKit
