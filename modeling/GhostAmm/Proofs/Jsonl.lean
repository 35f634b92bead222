/-
Event files are read back.

A well formed event is written as one line without control characters, so the lines of a file are
the events it was written from, whatever the universal newlines do (`universalLines_written`), and
reading gives the events back with the keys of their dictionaries in order.  The events of a
recording are read back from the files of the rotating writer (`recording_read_back_iff`), and the
text behind an event's identity determines what the event is about (`eventIdText_inj`).
-/
import GhostAmm.Lib.JsonScan
import GhostAmm.Model.Jsonl
import GhostAmm.Proofs.Session

namespace GhostAmm

open Py (Json FloatText JsonStyle)
open Py.JsonText

namespace JsonEvent

/-- An event of its type's class whose entries can be written. -/
structure WellFormed (floats : FloatText) (event : JsonEvent) : Prop where
  cls : classOf event.eventType = .ok event.cls
  entries : ∀ f ∈ event.toDict, Written floats f.2

/-- The event with the keys of its dictionaries in order. -/
def inKeyOrder (self : JsonEvent) : JsonEvent where
  cls := self.cls
  eventId := sortKeys self.eventId
  tsExchange := sortKeys self.tsExchange
  tsLocal := sortKeys self.tsLocal
  venue := sortKeys self.venue
  symbol := sortKeys self.symbol
  eventType := sortKeys self.eventType
  sequence := sortKeys self.sequence
  payload := sortKeys self.payload
  rawPayload := sortKeys self.rawPayload

variable {floats : FloatText} {self other : JsonEvent}

theorem toDict_inKeyOrder (self : JsonEvent) :
    self.inKeyOrder.toDict = self.toDict.map fun f => (f.1, sortKeys f.2) := rfl

theorem toDict_keys (self : JsonEvent) : self.toDict.map Prod.fst = fieldNames := rfl

theorem fieldNames_nodup : fieldNames.Nodup := by decide

theorem WellFormed.written (h : self.WellFormed floats) : Written floats (.obj self.toDict) :=
  .obj _ (by rw [toDict_keys]; exact fieldNames_nodup) h.entries

/-- Any dictionary with an event's entries is that event. -/
theorem fromDict_perm {fields : List (String × Json)} (hperm : fields.Perm self.toDict)
    (hcls : classOf self.eventType = .ok self.cls) : fromDict (.obj fields) = .ok self := by
  have hkeys : (fields.map Prod.fst).Perm fieldNames := hperm.map Prod.fst
  have hget : ∀ f ∈ self.toDict, ∀ default, Json.get fields f.1 default = f.2 := by
    intro f hf default
    have hlookup := Json.lookup_of_mem (hkeys.nodup_iff.mpr fieldNames_nodup)
      (hperm.mem_iff.mpr hf)
    rw [Json.get]
    show (Json.lookup fields f.1).getD default = f.2
    rw [hlookup]
    rfl
  have hknown : (fields.find? fun f => decide (f.1 ∉ fieldNames)) = none := by
    rw [List.find?_eq_none]
    intro f hf
    have := hkeys.mem_iff.mp (List.mem_map_of_mem hf)
    simpa using this
  have hall : (fieldNames.filter fun name =>
      decide (name ≠ "raw_payload" ∧ name ∉ fields.map Prod.fst)) = [] := by
    rw [List.filter_eq_nil_iff]
    intro name hname
    have := hkeys.mem_iff.mpr hname
    simp only [decide_eq_true_eq, not_and, not_not]
    exact fun _ => this
  simp only [toDict, List.forall_mem_cons] at hget
  obtain ⟨hid, htsExchange, htsLocal, hvenue, hsymbol, htype, hsequence, hpayload, hraw, -⟩ := hget
  rw [fromDict]
  dsimp only
  rw [htype, hcls, hknown, hall, hid, htsExchange, htsLocal, hvenue, hsymbol, htype, hsequence,
    hpayload, hraw]
  rfl

theorem classOf_sortKeys (eventType : Json) : classOf (sortKeys eventType) = classOf eventType := by
  cases eventType <;> rfl

theorem WellFormed.inKeyOrder (h : self.WellFormed floats) : self.inKeyOrder.WellFormed floats where
  cls := (classOf_sortKeys self.eventType).trans h.cls
  entries := by
    intro f hf
    rw [toDict_inKeyOrder] at hf
    obtain ⟨g, hg, rfl⟩ := List.mem_map.mp hf
    exact written_sortKeys (h.entries g hg)

/-- The line of an event says nothing of the order of its keys. -/
theorem toJson_inKeyOrder (h : self.WellFormed floats) :
    self.inKeyOrder.toJson floats = self.toJson floats := by
  have hsorted : dumps floats .compact (.obj self.inKeyOrder.toDict) =
      dumps floats .compact (sortKeys (.obj self.toDict)) := by
    rw [sortKeys_obj, toDict_inKeyOrder, dumps_obj, dumps_obj, inOrder_map, inOrder_map,
      inOrder_inOrder]
  rw [toJson, toJson, hsorted, dumps_sortKeys .compact h.written]

theorem printable_toJson (h : self.WellFormed floats) : Printable (self.toJson floats) :=
  printable_dumps printable_nil h.written

/-- An event's line is read back. -/
theorem readEventLine_toJson (h : self.WellFormed floats) {space : List Char}
    (hspace : ∀ c ∈ space, Py.isJsonSpace c = true) :
    readEventLine floats (self.toJson floats ++ space) = .ok self.inKeyOrder := by
  rw [readEventLine, toJson, loads_dumps .compact h.written hspace]
  show fromDict (sortKeys (.obj self.toDict)) = _
  rw [sortKeys_obj, ← inOrder_map, ← toDict_inKeyOrder]
  exact fromDict_perm (inOrder_keys _) h.inKeyOrder.cls

end JsonEvent

/-! ### Lines -/

/-- A line without control characters is a line of any file. -/
theorem universalLines_line {line : List Char} (hline : Printable line) (rest : List Char) :
    universalLines (line ++ '\n' :: rest) = (line ++ ['\n']) :: universalLines rest := by
  induction line with
  | nil => simp [universalLines]
  | cons c line ih =>
      have hc : c ≠ '\n' ∧ c ≠ '\r' := by
        have := hline c List.mem_cons_self
        constructor <;> rintro rfl <;> exact absurd this (by decide)
      rw [List.cons_append, universalLines.eq_3 _ _ (fun _ h _ => absurd h hc.2),
        if_neg (by simp [hc]), ih fun d hd => hline d (List.mem_cons_of_mem c hd)]
      rfl

theorem universalLines_written {lines : List (List Char)} (h : ∀ line ∈ lines, Printable line) :
    universalLines (lines.flatMap fun line => line ++ ['\n']) =
      lines.map fun line => line ++ ['\n'] := by
  induction lines with
  | nil => rfl
  | cons line lines ih =>
      rw [List.flatMap_cons, List.append_assoc, List.singleton_append,
        universalLines_line (h line (by simp)), ih fun l hl => h l (by simp [hl]), List.map_cons]

variable {floats : FloatText}

/-- A list of events that can all be written. -/
def AllWellFormed (floats : FloatText) (events : List JsonEvent) : Prop :=
  ∀ event ∈ events, event.WellFormed floats

/-- A line that is an event is not blank. -/
theorem strip_toJson (floats : FloatText) (event : JsonEvent) :
    Py.strip (event.toJson floats ++ ['\n']) ≠ [] := by
  obtain ⟨more, hmore⟩ : ∃ more, event.toJson floats ++ ['\n'] = '{' :: more := by
    rw [JsonEvent.toJson, dumps_obj]
    exact ⟨_, rfl⟩
  have hbrace : Py.isspace '{' = false := by decide
  rw [hmore, Py.strip, Py.rstrip, List.dropWhile_cons_of_neg (by simp [hbrace]), ne_eq,
    List.rdropWhile_eq_nil_iff]
  intro hall
  rw [hall '{' List.mem_cons_self] at hbrace
  cases hbrace

theorem mapM_ok {ε α β γ : Type} {f : β → Except ε γ} {g : α → β} {k : α → γ} {l : List α}
    (h : ∀ a ∈ l, f (g a) = .ok (k a)) : (l.map g).mapM f = .ok (l.map k) := by
  induction l with
  | nil => rfl
  | cons a l ih =>
      rw [List.map_cons, List.mapM_cons, h a (by simp), ih fun b hb => h b (by simp [hb])]
      rfl

/-- What was written is read back. -/
theorem readJsonl_writeJsonl {events : List JsonEvent} (h : AllWellFormed floats events) :
    readJsonl floats (writeJsonl floats events) = .ok (events.map JsonEvent.inKeyOrder) := by
  have htext : writeJsonl floats events =
      (events.map (JsonEvent.toJson floats)).flatMap fun line => line ++ ['\n'] := by
    rw [writeJsonl, List.flatMap_map]
  have hprintable : ∀ line ∈ events.map (JsonEvent.toJson floats), Printable line := by
    intro line hline
    obtain ⟨event, hevent, rfl⟩ := List.mem_map.mp hline
    exact JsonEvent.printable_toJson (h event hevent)
  rw [readJsonl, htext, universalLines_written hprintable, List.map_map, List.filter_eq_self.mpr]
  · exact mapM_ok fun event hevent =>
      JsonEvent.readEventLine_toJson (h event hevent) (by simp [Py.isJsonSpace])
  · intro line hline
    obtain ⟨event, hevent, rfl⟩ := List.mem_map.mp hline
    simpa using strip_toJson floats event

theorem allWellFormed_inKeyOrder {events : List JsonEvent} (h : AllWellFormed floats events) :
    AllWellFormed floats (events.map JsonEvent.inKeyOrder) := by
  intro event hevent
  obtain ⟨e, he, rfl⟩ := List.mem_map.mp hevent
  exact (h e he).inKeyOrder

theorem writeJsonl_inKeyOrder {events : List JsonEvent} (h : AllWellFormed floats events) :
    writeJsonl floats (events.map JsonEvent.inKeyOrder) = writeJsonl floats events := by
  induction events with
  | nil => rfl
  | cons event events ih =>
      rw [List.map_cons, writeJsonl, writeJsonl, List.flatMap_cons, List.flatMap_cons,
        JsonEvent.toJson_inKeyOrder (h event (by simp))]
      exact congrArg _ (ih fun e he => h e (by simp [he]))

/-! ### A trade on disk -/

/-- Floats that are whole numbers below `1e16`, as Python writes them. -/
def wholeFloats : FloatText where
  repr := fun x => Py.intText x.num ++ ".0".toList
  read := fun text =>
    (Py.wholeOfText (text.take (text.length - 2))).map fun (n : ℤ) => (n : ℚ)

theorem reads_wholeFloats (n : ℤ) : Reads wholeFloats n := by
  refine ⟨⟨Py.intText n, ".0".toList, [], ?_, isWhole_intText n, ?_, Or.inl rfl, by simp⟩, ?_⟩
  · simp [wholeFloats]
  · exact Or.inr ⟨['0'], by simp, by simp, rfl⟩
  · have htake : (Py.intText n ++ ".0".toList).take ((Py.intText n ++ ".0".toList).length - 2) =
        Py.intText n := by simp
    simp only [wholeFloats, Rat.num_intCast, htake, Py.wholeOfText_intText, Option.map_some]

/-- A buy, with its entries in the order the normalizer gives them. -/
def tradeOnDisk (price : ℤ) : JsonEvent where
  cls := "TradeEvent"
  eventId := .str "5ac7"
  tsExchange := .float 1000
  tsLocal := .float 1001
  venue := .str "bitbank"
  symbol := .str "BTC/JPY"
  eventType := .str "trade"
  sequence := .int 7
  payload := .obj [("side", .str "buy"), ("price", .float price), ("amount", .float 2)]
  rawPayload := .null

theorem wellFormed_tradeOnDisk (price : ℤ) : (tradeOnDisk price).WellFormed wholeFloats where
  cls := rfl
  entries := by
    have hprice := reads_wholeFloats price
    have hwhole : ∀ n : ℤ, Written wholeFloats (.float n) := fun n => .float _ (reads_wholeFloats n)
    simp only [JsonEvent.toDict, tradeOnDisk, List.forall_mem_cons]
    refine ⟨.str _, hwhole 1000, hwhole 1001, .str _, .str _, .str _, .int _, ?_, .null, by simp⟩
    refine .obj _ (by simp) ?_
    simp only [List.forall_mem_cons]
    exact ⟨.str _, hwhole price, hwhole 2, by simp⟩

theorem allWellFormed_tradeOnDisk (price : ℤ) : AllWellFormed wholeFloats [tradeOnDisk price] := by
  intro event hevent
  rw [List.mem_singleton.mp hevent]
  exact wellFormed_tradeOnDisk price

/-! ### A file -/

/--
**A file of events is read back with the keys of every dictionary in order, and what is read is
written to the same file again, byte by byte.**
-/
theorem jsonl_round_trip {events : List JsonEvent} (h : AllWellFormed floats events) :
    ∃ read, readJsonl floats (writeJsonl floats events) = .ok read ∧
      read = events.map JsonEvent.inKeyOrder ∧ AllWellFormed floats read ∧
      writeJsonl floats read = writeJsonl floats events :=
  ⟨_, readJsonl_writeJsonl h, rfl, allWellFormed_inKeyOrder h, writeJsonl_inKeyOrder h⟩

theorem jsonl_round_trip_trade :
    String.ofList (writeJsonl wholeFloats [tradeOnDisk 100]) =
      "\x7b\"event_id\":\"5ac7\",\"event_type\":\"trade\",\"payload\":\x7b\"amount\":2.0," ++
        "\"price\":100.0,\"side\":\"buy\"\x7d,\"raw_payload\":null,\"sequence\":7," ++
        "\"symbol\":\"BTC/JPY\",\"ts_exchange\":1000.0,\"ts_local\":1001.0," ++
        "\"venue\":\"bitbank\"\x7d\n" ∧
    ∃ read, readJsonl wholeFloats (writeJsonl wholeFloats [tradeOnDisk 100]) = .ok read ∧
      read = [tradeOnDisk 100].map JsonEvent.inKeyOrder ∧ AllWellFormed wholeFloats read ∧
      writeJsonl wholeFloats read = writeJsonl wholeFloats [tradeOnDisk 100] :=
  ⟨by decide +kernel, jsonl_round_trip (allWellFormed_tradeOnDisk 100)⟩

/-- **Two lists of events are written to the same file exactly when they are the same events up
to the order of keys.** -/
theorem jsonl_canonical {events others : List JsonEvent} (h : AllWellFormed floats events)
    (h' : AllWellFormed floats others) :
    writeJsonl floats events = writeJsonl floats others ↔
      events.map JsonEvent.inKeyOrder = others.map JsonEvent.inKeyOrder := by
  constructor
  · intro htext
    have hread := readJsonl_writeJsonl h
    rw [htext, readJsonl_writeJsonl h'] at hread
    exact (Except.ok.inj hread).symm
  · intro hsame
    rw [← writeJsonl_inKeyOrder h, hsame, writeJsonl_inKeyOrder h']

theorem jsonl_canonical_trades :
    writeJsonl wholeFloats [tradeOnDisk 100] ≠ writeJsonl wholeFloats [tradeOnDisk 101] ∧
      (writeJsonl wholeFloats [tradeOnDisk 100] = writeJsonl wholeFloats [tradeOnDisk 101] ↔
        [tradeOnDisk 100].map JsonEvent.inKeyOrder = [tradeOnDisk 101].map JsonEvent.inKeyOrder) :=
  ⟨by decide +kernel,
    jsonl_canonical (allWellFormed_tradeOnDisk 100) (allWellFormed_tradeOnDisk 101)⟩

/-! ### The files of a recording -/

namespace RotatingJsonlEventWriter

/-- The line of an event, as the writer is given it. -/
def jsonText (floats : FloatText) (event : JsonEvent) : String :=
  String.ofList (event.toJson floats)

/-- What a file will hold once its handle is flushed. -/
def textOf (self : RotatingJsonlEventWriter) (path : List Char) : List Char :=
  (self.linesOf path).flatMap String.toList

/-- Lines that are events are a written file. -/
theorem flatMap_lineOf (floats : FloatText) (events : List JsonEvent) :
    (events.map (lineOf (jsonText floats))).flatMap String.toList = writeJsonl floats events := by
  rw [List.flatMap_map, writeJsonl]
  refine List.flatMap_congr fun event _ => ?_
  simp [lineOf, jsonText]

/-- Files that share out the lines of events are read back to these events. -/
theorem readFiles_lines {files : List (List String)} {events : List JsonEvent}
    (h : AllWellFormed floats events)
    (hfiles : files.flatten = events.map (lineOf (jsonText floats))) :
    readFiles floats (files.map fun lines => lines.flatMap String.toList) =
      .ok (events.map JsonEvent.inKeyOrder) := by
  induction files generalizing events with
  | nil =>
      rw [List.flatten_nil, eq_comm, List.map_eq_nil_iff] at hfiles
      rw [hfiles]
      rfl
  | cons lines files ih =>
      rw [List.flatten_cons, eq_comm, List.map_eq_append_iff] at hfiles
      obtain ⟨first, rest, rfl, rfl, hrest⟩ := hfiles
      have hfirst := readJsonl_writeJsonl fun e he => h e (List.mem_append_left rest he)
      have hmore := ih (fun e he => h e (List.mem_append_right first he)) hrest.symm
      rw [readFiles] at hmore ⊢
      rw [List.map_cons, List.mapM_cons, flatMap_lineOf, hfirst]
      cases hparts : (files.map fun lines => lines.flatMap String.toList).mapM
          (readJsonl floats) with
      | error e =>
          rw [hparts] at hmore
          cases hmore
      | ok parts =>
          rw [hparts] at hmore
          have hflat : parts.flatten = rest.map JsonEvent.inKeyOrder := Except.ok.inj hmore
          show Except.ok (first.map JsonEvent.inKeyOrder ++ parts.flatten) = _
          rw [hflat, ← List.map_append]

/--
**Reading the files of a recording in the order they were opened in gives the events that were
written, exactly when the writer was closed for good.**
-/
theorem recording_read_back_iff (settings : WriterSettings) {l : List (WriterCall JsonEvent)}
    (h : AllWellFormed floats (written l)) :
    readFiles floats ((calls (jsonText floats) settings l).opened.map
        (calls (jsonText floats) settings l).textOf) =
        .ok ((written l).map JsonEvent.inKeyOrder) ↔ ClosedForGood l := by
  have hlog := @follows_calls settings _ (jsonText floats) l
  -- what the files hold is some of the lines, in order
  have hsome : List.Sublist (calls (jsonText floats) settings l).recording
      ((written l).map (lineOf (jsonText floats))) := by
    rw [hlog.recording, ← appended_logActs (jsonText floats) settings]
    exact Segments.contents_sublist _
  obtain ⟨kept, hkept, hlines⟩ := List.sublist_map_iff.mp hsome
  have hfiles : ((calls (jsonText floats) settings l).opened.map
      (calls (jsonText floats) settings l).linesOf).flatten =
        kept.map (lineOf (jsonText floats)) := by
    rw [← hlines, recording, List.flatMap_def]
  have hread := readFiles_lines (fun e he => h e (hkept.subset he)) hfiles
  rw [List.map_map] at hread
  change readFiles floats ((calls (jsonText floats) settings l).opened.map
    (calls (jsonText floats) settings l).textOf) = _ at hread
  rw [hread, ← @kept_iff_closedForGood settings _ (jsonText floats),
    ← Segments.contents_eq_iff, appended_logActs, ← hlog.recording, hlines]
  constructor
  · intro hsame
    have hlen := congrArg List.length (Except.ok.inj hsame)
    rw [List.length_map, List.length_map] at hlen
    rw [hkept.eq_of_length hlen]
  · intro hsame
    have hlen := congrArg List.length hsame
    rw [List.length_map, List.length_map] at hlen
    rw [hkept.eq_of_length hlen]

/-- A trade written before the close and another after it. -/
def lateTrade : List (WriterCall JsonEvent) :=
  [.open_, .write (tradeOnDisk 100), .close, .write (tradeOnDisk 101)]

theorem lateTrade_not_read_back :
    ¬ ClosedForGood lateTrade ∧
      (readFiles wholeFloats
          ((calls (jsonText wholeFloats) Recorder.stubborn.writer lateTrade).opened.map
            (calls (jsonText wholeFloats) Recorder.stubborn.writer lateTrade).textOf) =
          .ok ((written lateTrade).map JsonEvent.inKeyOrder) ↔ ClosedForGood lateTrade) := by
  refine ⟨?_, recording_read_back_iff _ ?_⟩
  · intro h
    have hlate := h [.open_, .write (tradeOnDisk 100)] [.write (tradeOnDisk 101)] rfl
      (by simp [written]) (.write (tradeOnDisk 101)) (by simp)
    cases hlate
  · intro event hevent
    rcases List.mem_pair.mp hevent with rfl | rfl
    · exact wellFormed_tradeOnDisk 100
    · exact wellFormed_tradeOnDisk 101

end RotatingJsonlEventWriter

/-! ### The identity of an event -/

/-- The parts with a bar before each. -/
def eventIdRest (floats : FloatText) : List Json → List Char
  | [] => []
  | part :: parts => '|' :: (dumps floats .default part ++ eventIdRest floats parts)

theorem eventIdRest_eq (floats : FloatText) (part : Json) (parts : List Json) :
    eventIdRest floats (part :: parts) = '|' :: eventIdText floats (part :: parts) := by
  induction parts generalizing part with
  | nil => simp [eventIdRest, eventIdText]
  | cons next parts ih =>
      rw [eventIdRest, ih]
      simp [eventIdText]

theorem numberEnds_eventIdRest (floats : FloatText) (parts : List Json) :
    NumberEnds (eventIdRest floats parts) := by
  cases parts with
  | nil =>
      rw [eventIdRest]
      exact numberEnds_space (by simp)
  | cons part parts => exact numberEnds_of (by decide)

theorem eventIdRest_inj {parts others : List Json} (h : ∀ part ∈ parts, Written floats part)
    (h' : ∀ part ∈ others, Written floats part) :
    eventIdRest floats parts = eventIdRest floats others ↔
      parts.map sortKeys = others.map sortKeys := by
  induction parts generalizing others with
  | nil => cases others <;> simp [eventIdRest]
  | cons part parts ih =>
      cases others with
      | nil => simp [eventIdRest]
      | cons other others =>
          obtain ⟨hpart, hparts⟩ := List.forall_mem_cons.mp h
          obtain ⟨hother, hothers⟩ := List.forall_mem_cons.mp h'
          rw [eventIdRest, eventIdRest, List.map_cons, List.map_cons, List.cons.injEq,
            List.cons.injEq, ← ih hparts hothers, and_iff_right rfl]
          constructor
          · exact dumps_append_inj .default hpart hother (numberEnds_eventIdRest floats parts)
              (numberEnds_eventIdRest floats others)
          · rintro ⟨hvalue, hrest⟩
            rw [(dumps_inj .default hpart hother).mpr hvalue, hrest]

/-- **The text behind an event's identity determines its parts up to the order of keys.** -/
theorem eventIdText_inj {parts others : List Json} (h : ∀ part ∈ parts, Written floats part)
    (h' : ∀ part ∈ others, Written floats part) :
    eventIdText floats parts = eventIdText floats others ↔
      parts.map sortKeys = others.map sortKeys := by
  have hne : ∀ {part : Json} {parts : List Json}, Written floats part →
      eventIdText floats (part :: parts) ≠ [] := by
    intro part parts hpart htext
    obtain ⟨c, more, hhead, -⟩ := dumps_head .default hpart
    have hrest := eventIdRest_eq floats part parts
    rw [htext, eventIdRest, hhead] at hrest
    simp at hrest
  rw [← eventIdRest_inj h h']
  cases parts with
  | nil =>
      cases others with
      | nil => simp
      | cons other others =>
          exact iff_of_false (fun htext => hne (h' other (by simp)) htext.symm)
            (by simp [eventIdRest])
  | cons part parts =>
      cases others with
      | nil => exact iff_of_false (hne (h part (by simp))) (by simp [eventIdRest])
      | cons other others => rw [eventIdRest_eq, eventIdRest_eq, List.cons.injEq, and_iff_right rfl]

theorem JsonEvent.WellFormed.idParts {event : JsonEvent} (h : event.WellFormed floats) :
    ∀ part ∈ event.idParts, Written floats part := by
  have hentries := h.entries
  simp only [JsonEvent.toDict, List.forall_mem_cons] at hentries
  obtain ⟨-, htsExchange, -, hvenue, hsymbol, htype, hsequence, hpayload, -⟩ := hentries
  simp only [JsonEvent.idParts, List.forall_mem_cons]
  exact ⟨htype, htsExchange, hvenue, hsymbol, hsequence, hpayload, by simp⟩

/--
**Two events have one text behind their identities exactly when their type, time, venue, symbol,
sequence and payload are the same up to the order of keys.**
-/
theorem same_identity_iff {event other : JsonEvent} (h : event.WellFormed floats)
    (h' : other.WellFormed floats) :
    eventIdText floats event.idParts = eventIdText floats other.idParts ↔
      event.inKeyOrder.idParts = other.inKeyOrder.idParts :=
  eventIdText_inj h.idParts h'.idParts

theorem same_identity_trades :
    eventIdText wholeFloats (tradeOnDisk 100).idParts ≠
        eventIdText wholeFloats (tradeOnDisk 101).idParts ∧
      (eventIdText wholeFloats (tradeOnDisk 100).idParts =
          eventIdText wholeFloats (tradeOnDisk 101).idParts ↔
        (tradeOnDisk 100).inKeyOrder.idParts = (tradeOnDisk 101).inKeyOrder.idParts) :=
  ⟨by decide +kernel,
    same_identity_iff (wellFormed_tradeOnDisk 100) (wellFormed_tradeOnDisk 101)⟩

end GhostAmm
