import EMaster.C3Client

/-!
# The realtime log from the panel to the parsed entries

The panel hands over records of 16 bytes. The client writes each as a line of fields, and
the parser of the controller takes the lines apart again.
-/

set_option autoImplicit false

namespace EMaster.RTLog
open C3 Framing Text List Client

structure RTLogEvent where
  (time pin cardNo : Text)
  (doorNo eventType inOutStatus verifyMode : ℤ)
  deriving DecidableEq, Repr

structure DoorAlarmStatus where
  time : Text
  (dssStatusPacked alarmStatusPacked : UInt32)
  deriving DecidableEq, Repr

structure RTLogParseResult where
  events : List RTLogEvent
  statuses : List DoorAlarmStatus
  deriving DecidableEq, Repr

def pieces : Text → List Text
  | [] => [[]]
  | '\r':: '\n'::rest => []::pieces rest
  | c::rest =>
    match pieces rest with
    | [] => [[c]]
    | line::lines => (c::line)::lines

def splitLines (text : Text) : List Text := (pieces text).filter (· ≠ [])

def isBlank (c : Char) : Bool := c = ' ' || c = '\t' || c = '\r' || c = '\n'

def trim (text : Text) : Text := ((text.dropWhile isBlank).reverse.dropWhile isBlank).reverse

def parseLine (result : RTLogParseResult) (line : Text) : RTLogParseResult :=
  match line.splitOn ',' with
  | time::first::second::third::fourth::fifth::sixth::_ =>
    if trim fourth = "255" then
      { result with
        statuses := result.statuses++
          [⟨time,UInt32.ofNat (strtoul (trim first)),UInt32.ofNat (strtoul (trim second))⟩] }
    else
      { result with
        events := result.events++
          [⟨time,first,second,atoi (trim third),atoi (trim fourth),atoi (trim fifth),
            atoi (trim sixth)⟩] }
  | _ => result

def parseRTLogBuffer (buffer : Text) : RTLogParseResult :=
  (splitLines (buffer.takeWhile (· ≠ '\x00'))).foldl parseLine ⟨[],[]⟩

/-- The byte of each of the four doors, the first door in the lowest byte. -/
def unpackDoorBytes (packed : UInt32) : List ℕ :=
  (List.range 4).map (fun i => (packed >>> UInt32.ofNat (8*i) &&& 0xFF).toNat)

def scanTime (text : Text) : Option (ℤ×ℤ×ℤ×ℤ×ℤ×ℤ) := do
  let (year,text) ← scanInt text
  let (month,text) ← scanInt (← expect '-' text)
  let (day,text) ← scanInt (← expect '-' text)
  let (hour,text) ← scanInt (text.dropWhile isSpace)
  let (minute,text) ← scanInt (← expect ':' text)
  let (second,_) ← scanInt (← expect ':' text)
  return (year,month,day,hour,minute,second)
where
  expect (c : Char) (text : Text) : Option Text :=
    if text.head? = some c then some text.tail else none

def Plain (text : Text) : Prop := ∀ c ∈ text, c ≠ ',' ∧ c ≠ '\r' ∧ c ≠ '\x00'

variable {text : Text}

theorem plain_digits (h : Digits text) : Plain text := by
  intro c hc
  have hd := h c hc
  refine ⟨?_,?_,?_⟩ <;> (rintro rfl; cases hd)

theorem plain_append {more : Text} (h : Plain text) (hm : Plain more) : Plain (text++more) := by
  intro c hc
  rcases mem_append.mp hc with hl | hr
  · exact h c hl
  · exact hm c hr

theorem plain_cons {c : Char} (hc : c ≠ ',' ∧ c ≠ '\r' ∧ c ≠ '\x00') (h : Plain text) : Plain (c::text) := by
  intro d hd
  rcases mem_cons.mp hd with rfl | hr
  · exact hc
  · exact h d hr

variable (rec : Bytes) (record : RtLogRecord) (value : UInt32)

theorem format_time_plain : Plain (formatC3Time value) := by
  have hn : ∀ width n, Plain (padded width n) := fun width n => plain_digits (padded_digits width n)
  rw [formatC3Time]
  refine plain_append (hn _ _) (plain_cons (by decide) ?_)
  refine plain_append (hn _ _) (plain_cons (by decide) ?_)
  refine plain_append (hn _ _) (plain_cons (by decide) ?_)
  refine plain_append (hn _ _) (plain_cons (by decide) ?_)
  exact plain_append (hn _ _) (plain_cons (by decide) (hn _ _))

theorem fields_plain : ∀ field ∈ recordFields record, Plain field := by
  have hn : ∀ n, Plain (ofNat n) := fun n => plain_digits (of_nat_digits n)
  have ht := format_time_plain record.timeSecond
  have hz : Plain ['0'] := by simp [Plain]
  have hm : Plain ['2','5','5'] := hn 255
  rw [recordFields]
  split <;> simp [hn,ht,hz,hm]

theorem pieces_line {line : Text} (rest : Text) (h : '\r' ∉ line) :
    pieces (line++ '\r':: '\n'::rest) = line::pieces rest := by
  induction line with
  | nil => rw [nil_append,pieces]
  | cons c line ih =>
    rw [mem_cons,not_or] at h
    rw [cons_append,pieces,ih h.2]
    rintro _ rfl
    exact absurd rfl h.1

def lineOf (record : RtLogRecord) : Text := [','].intercalate (Client.recordFields record)

theorem intercalate_all {fields : List Text} {p : Char → Prop} (hcm : p ',')
    (h : ∀ field ∈ fields, ∀ c ∈ field, p c) : ∀ c ∈ [','].intercalate fields, p c := by
  induction fields with
  | nil => simp
  | cons field fields ih =>
    have hr := ih (fun o ho => h o (mem_cons_of_mem field ho))
    have hf := h field mem_cons_self
    cases fields with
    | nil => simpa using hf
    | cons o fields =>
      rw [intercalate_cons_cons]
      intro c hc
      simp only [mem_append,mem_singleton] at hc
      rcases hc with (hc | rfl) | hc
      · exact hf c hc
      · exact hcm
      · exact hr c hc

theorem line_chars : ∀ c ∈ lineOf record, c ≠ '\r' ∧ c ≠ '\x00' :=
  intercalate_all (by decide) (fun field hf c hc => (fields_plain _ field hf c hc).2)

theorem line_ne_nil : lineOf record ≠ [] := by
  rw [lineOf,recordFields]
  split <;> simp [intercalate_cons_cons]

variable (records : List RtLogRecord) (a : UInt8) (result : RTLogParseResult) (b c d : UInt8)

theorem csv_cons :
    recordsCsv (record::records) = lineOf record++ '\r':: '\n'::recordsCsv records := by
  simp [recordsCsv,csvLine,lineOf]

theorem csv_lines : splitLines (recordsCsv records) = records.map lineOf := by
  induction records with
  | nil => rfl
  | cons rec records ih =>
    rw [csv_cons,splitLines,pieces_line _ (fun hr => (line_chars rec _ hr).1 rfl),
      filter_cons,if_pos (by simpa using line_ne_nil rec),← splitLines,ih,
      map_cons]

theorem csv_text : (recordsCsv records).takeWhile (· ≠ '\x00') = recordsCsv records := by
  rw [takeWhile_eq_self_iff]
  intro c hc
  induction records with
  | nil => cases hc
  | cons rec records ih =>
    rw [csv_cons,mem_append] at hc
    rcases hc with hl | hr
    · simpa using (line_chars rec c hl).2
    · simp only [mem_cons] at hr
      rcases hr with rfl | rfl | hr
      · decide
      · decide
      · exact ih hr

def eventOf (record : RtLogRecord) : RTLogEvent where
  time := formatC3Time record.timeSecond
  pin := ofNat record.pin.toNat
  cardNo := ofNat record.cardNo.toNat
  doorNo := record.doorId.toNat
  eventType := record.eventType.toNat
  inOutStatus := record.inOutState.toNat
  verifyMode := record.verified.toNat

def statusOf (record : RtLogRecord) : DoorAlarmStatus where
  time := formatC3Time record.timeSecond
  dssStatusPacked := Client.packed record.dssStatus
  alarmStatusPacked := Client.packed record.alarmStatus

theorem line_fields : (lineOf record).splitOn ',' = recordFields record := by
  apply splitOn_intercalate
  · exact fun field hf hc => (fields_plain _ field hf _ hc).1 rfl
  · rw [recordFields]
    split <;> simp

theorem trim_digits {text : Text} (h : Digits text) : trim text = text := by
  have hd : ∀ more : Text, Digits more → more.dropWhile isBlank = more := by
    intro more hm
    refine dropWhile_eq_self_iff.mpr fun hl => ?_
    have hb := digit_bounds _ (hm _ (getElem_mem hl))
    simp only [isBlank,Bool.or_eq_true,decide_eq_true_eq]
    rintro (((hc | hc) | hc) | hc) <;> rw [hc] at hb <;> revert hb <;> decide
  rw [trim,hd text h,hd _ (fun c hc => h c (mem_reverse.mp hc)),reverse_reverse]

theorem unpacked : UInt32.ofNat (strtoul (trim (ofNat value.toNat))) = value := by
  rw [trim_digits (of_nat_digits _),strtoul_of_nat _ (by have := value.toNat_lt; omega),
    UInt32.ofNat_toNat]

theorem parse_event {rec : RtLogRecord} (hk : rec.kind = .kEvent)
    (ht : rec.eventType ≠ 255) :
    parseLine result (lineOf rec) = { result with events := result.events++[eventOf rec] } := by
  have hm : trim (ofNat rec.eventType.toNat) ≠ "255" := by
    rw [trim_digits (of_nat_digits _)]
    intro h
    exact ht (UInt8.toNat_inj.mp (of_nat_injective h))
  rw [parseLine,line_fields,recordFields,hk]
  dsimp only
  have hb : ∀ byte : UInt8, atoi (trim (ofNat byte.toNat)) = byte.toNat := by
    intro byte
    rw [trim_digits (of_nat_digits _),atoi_of_nat _ (by have := byte.toNat_lt; omega)]
  rw [if_neg hm]
  simp only [hb,eventOf]

theorem parse_status {rec : RtLogRecord} (hk : rec.kind = .kDoorAlarmStatus) :
    parseLine result (lineOf rec) =
      { result with statuses := result.statuses++[statusOf rec] } := by
  have hm : trim "255" = "255" := trim_digits (of_nat_digits 255)
  rw [parseLine,line_fields,recordFields,hk]
  dsimp only
  rw [if_pos hm,unpacked,unpacked,statusOf]

variable {records}

theorem parse_records (h : ∀ r ∈ records, r.kind = .kEvent → r.eventType ≠ 255) :
    (records.map lineOf).foldl parseLine result =
      ⟨result.events++(records.filter (fun r => r.kind = .kEvent)).map eventOf,
        result.statuses++(records.filter (fun r => r.kind = .kDoorAlarmStatus)).map statusOf⟩ := by
  induction records generalizing result with
  | nil => simp
  | cons rec records ih =>
    have hrs := fun r hr => h r (mem_cons_of_mem rec hr)
    rw [map_cons,foldl_cons]
    cases hk : rec.kind with
    | kEvent =>
      rw [parse_event _ hk (h rec mem_cons_self hk),ih _ hrs]
      simp [hk]
    | kDoorAlarmStatus =>
      rw [parse_status _ hk,ih _ hrs]
      simp [hk]

def number (data : Bytes) : ℕ := data.foldr (fun b n => b.toNat+256*n) 0

theorem or_shift {low k : ℕ} (high : ℕ) (h : low < 2^k) : high <<< k ||| low = low+high*2^k := by
  rw [← Nat.shiftLeft_add_eq_or_of_lt h,Nat.shiftLeft_eq,Nat.add_comm]

theorem join_low (n : UInt32) (b : UInt8) (h : n.toNat < 2^24) :
    (n <<< 8 ||| b.toUInt32).toNat = b.toNat+256*n.toNat := by
  have hb := b.toNat_lt
  rw [UInt32.toNat_or,UInt32.toNat_shiftLeft,UInt8.toNat_toUInt32,
    show (UInt32.toNat 8)%32 = 8 from rfl,Nat.shiftLeft_eq,Nat.mod_eq_of_lt (by omega),
    ← Nat.shiftLeft_eq,or_shift _ (by omega)]
  omega

theorem join_high (n : UInt32) (b : UInt8) (k : ℕ) (hk : k ≤ 24) (h : n.toNat < 2^k) :
    (n ||| b.toUInt32 <<< UInt32.ofNat k).toNat = n.toNat+b.toNat*2^k := by
  have hb := b.toNat_lt
  have hp : 2^k ≤ 2^24 := Nat.pow_le_pow_right (by decide) hk
  have hpr : b.toNat*2^k ≤ 255*2^24 := Nat.mul_le_mul (by omega) hp
  have hs : (UInt32.ofNat k).toNat%32 = k := by
    rw [UInt32.toNat_ofNat_of_lt' (by simp [UInt32.size]; omega)]
    omega
  rw [UInt32.toNat_or,UInt32.toNat_shiftLeft,UInt8.toNat_toUInt32,hs,Nat.shiftLeft_eq,
    Nat.mod_eq_of_lt (by omega),Nat.or_comm,← Nat.shiftLeft_eq,or_shift _ h,
    Nat.shiftLeft_eq]

theorem packed_number : (packed [a,b,c,d]).toNat = number [a,b,c,d] := by
  have ha := a.toNat_lt
  have hb := b.toNat_lt
  have hc := c.toNat_lt
  have hd := d.toNat_lt
  have h1 := join_low 0 d (by decide)
  have h2 := join_low _ c (by rw [h1,UInt32.toNat_zero]; omega)
  have h3 := join_low _ b (by rw [h2,h1,UInt32.toNat_zero]; omega)
  have h4 := join_low _ a (by rw [h3,h2,h1,UInt32.toNat_zero]; omega)
  rw [h3,h2,h1] at h4
  exact h4

theorem read_number :
    (a.toUInt32 ||| b.toUInt32 <<< 8 ||| c.toUInt32 <<< 16 ||| d.toUInt32 <<< 24).toNat =
      number [a,b,c,d] := by
  have ha := a.toNat_lt
  have hb := b.toNat_lt
  have hc := c.toNat_lt
  have h1 := join_high a.toUInt32 b 8 (by decide) (by rw [UInt8.toNat_toUInt32]; omega)
  have h2 := join_high _ c 16 (by decide) (by rw [h1,UInt8.toNat_toUInt32]; omega)
  have h3 := join_high _ d 24 (by decide) (by rw [h2,h1,UInt8.toNat_toUInt32]; omega)
  rw [h2,h1,UInt8.toNat_toUInt32] at h3
  refine h3.trans ?_
  simp only [number,foldr_cons,foldr_nil]
  omega

variable {a b d}

theorem unpack_number {value : UInt32} (h : value.toNat = number [a,b,c,d]) :
    unpackDoorBytes value = [a,b,c,d].map UInt8.toNat := by
  have ha := a.toNat_lt
  have hb := b.toNat_lt
  have hc := c.toNat_lt
  have hd := d.toNat_lt
  have hby : ∀ i < 4, (value >>> UInt32.ofNat (8*i) &&& 0xFF).toNat =
      value.toNat/2^(8*i)%256 := by
    intro i hi
    rw [UInt32.toNat_and, UInt32.toNat_shiftRight,
      UInt32.toNat_ofNat_of_lt' (by simp [UInt32.size]; omega),
      Nat.mod_eq_of_lt (show 8*i < 32 by omega), Nat.shiftRight_eq_div_pow]
    exact Nat.and_two_pow_sub_one_eq_mod _ 8
  simp only [number,foldr_cons,foldr_nil] at h
  simp only [unpackDoorBytes,range_succ,range_zero,nil_append,
    map_cons,map_nil,cons_append,cons.injEq,and_true]
  rw [hby 0 (by decide),hby 1 (by decide),hby 2 (by decide),hby 3 (by decide)]
  omega

def timeFields (t : C3DateTime) : ℤ×ℤ×ℤ×ℤ×ℤ×ℤ := (t.year,t.month,t.day,t.hour,t.minute,t.second)

theorem decode_time_small : (decodeC3Time value).year < 2^31 ∧ (decodeC3Time value).month < 2^31 ∧
    (decodeC3Time value).day < 2^31 ∧ (decodeC3Time value).hour < 2^31 ∧
    (decodeC3Time value).minute < 2^31 ∧ (decodeC3Time value).second < 2^31 := by
  have hv := value.toNat_lt
  simp only [decodeC3Time]
  omega

theorem scan_format : scanTime (formatC3Time value) = some (timeFields (decodeC3Time value)) := by
  obtain ⟨hy,hmo,hd,hh,hmi,hse⟩ := decode_time_small value
  have ha : ∀ (c : Char) (n width : ℕ) (rest : Text), c.isDigit = false → n < 2^31 →
      scanInt (padded width n++c::rest) = some ((n : ℤ),c::rest) :=
    fun c n width rest hc hn => scan_padded n width _ (by simpa using hc) hn
  have hl : ∀ n width, n < 2^31 → scanInt (padded width n) = some ((n : ℤ),[]) := by
    intro n width hn
    have h := scan_padded n width [] (by simp) hn
    rwa [append_nil] at h
  have hs : ∀ (n width : ℕ) (rest : Text), (' '::(padded width n++rest)).dropWhile isSpace =
      padded width n++rest := by
    intro n width rest
    rw [dropWhile_cons,if_pos (by decide)]
    apply drop_space
    intro c hc
    rw [head?_append_of_ne_nil _ (padded_ne_nil width n)] at hc
    exact digit_not_space (padded_digits width n c (mem_of_mem_head? hc))
  simp only [scanTime,formatC3Time]
  rw [ha '-' _ 4 _ (by decide) hy]
  simp only [Option.bind_eq_bind,Option.bind_some,scanTime.expect,head?_cons,if_true,
    tail_cons]
  rw [ha '-' _ 2 _ (by decide) hmo]
  simp only [Option.bind_some,head?_cons,if_true,tail_cons]
  rw [ha ' ' _ 2 _ (by decide) hd]
  simp only [Option.bind_some]
  rw [hs,ha ':' _ 2 _ (by decide) hh]
  simp only [Option.bind_some,head?_cons,if_true,tail_cons]
  rw [ha ':' _ 2 _ (by decide) hmi]
  simp only [Option.bind_some,head?_cons,if_true,tail_cons]
  rw [hl _ _ hse]
  rfl

/-- A text that reads as the time which the panel counts that way. -/
def IsTime (text : Text) (count : ℕ) : Prop :=
  ∃ t, Representable t ∧ encodeC3Time t = count ∧ scanTime text = some (timeFields t)

structure IsEvent (rec : Bytes) (event : RTLogEvent) : Prop where
  cardNo : event.cardNo = ofNat (number (rec.take 4))
  pin : event.pin = ofNat (number ((rec.drop 4).take 4))
  verifyMode : event.verifyMode = (rec.getD 8 0).toNat
  doorNo : event.doorNo = (rec.getD 9 0).toNat
  eventType : event.eventType = (rec.getD 10 0).toNat
  inOutStatus : event.inOutStatus = (rec.getD 11 0).toNat
  time : IsTime event.time (number ((rec.drop 12).take 4))

structure IsStatus (rec : Bytes) (status : DoorAlarmStatus) : Prop where
  alarms : unpackDoorBytes status.alarmStatusPacked = (rec.take 4).map UInt8.toNat
  doors : unpackDoorBytes status.dssStatusPacked = ((rec.drop 4).take 4).map UInt8.toNat
  time : IsTime status.time (number ((rec.drop 12).take 4))

variable {value}

theorem format_is_time {count : ℕ} (h : value.toNat = count) :
    IsTime (formatC3Time value) count := by
  obtain ⟨he,hr⟩ := encode_decode_time value
  exact ⟨decodeC3Time value,hr,he.trans h,scan_format value⟩

theorem sixteen_bytes (h : rec.length = 16) :
    ∃ a b c d e f g i j k l m n o p q : UInt8, rec = [a,b,c,d,e,f,g,i,j,k,l,m,n,o,p,q] := by
  match rec, h with
  | [a,b,c,d,e,f,g,i,j,k,l,m,n,o,p,q], _ => exact ⟨a,b,c,d,e,f,g,i,j,k,l,m,n,o,p,q,rfl⟩

theorem event_entry (h : rec.length = 16) (ht : rec.getD 10 0 ≠ 255) :
    IsEvent rec (eventOf (readRecord rec)) := by
  rw [readRecord,if_neg ht]
  obtain ⟨a,b,c,d,e,f,g,i,j,k,l,m,n,o,p,q,rfl⟩ := sixteen_bytes rec h
  exact
    { cardNo := congrArg ofNat (read_number a b c d)
      pin := congrArg ofNat (read_number e f g i)
      verifyMode := rfl
      doorNo := rfl
      eventType := rfl
      inOutStatus := rfl
      time := format_is_time (read_number n o p q) }

theorem status_entry (h : rec.length = 16) (ht : rec.getD 10 0 = 255) :
    IsStatus rec (statusOf (readRecord rec)) := by
  rw [readRecord,if_pos ht]
  obtain ⟨a,b,c,d,e,f,g,i,j,k,l,m,n,o,p,q,rfl⟩ := sixteen_bytes rec h
  exact
    { alarms := unpack_number c (packed_number a b c d)
      doors := unpack_number g (packed_number e f g i)
      time := format_is_time (read_number n o p q) }

theorem record_event_iff : (readRecord rec).kind = .kEvent ↔ rec.getD 10 0 ≠ 255 := by
  by_cases ht : rec.getD 10 0 = 255
  · rw [readRecord,if_pos ht]
    exact iff_of_false RtLogRecordKind.noConfusion (not_not.mpr ht)
  · rw [readRecord,if_neg ht]
    exact iff_of_true rfl ht

theorem record_status_iff : (readRecord rec).kind = .kDoorAlarmStatus ↔ rec.getD 10 0 = 255 := by
  by_cases ht : rec.getD 10 0 = 255
  · rw [readRecord,if_pos ht]
    exact iff_of_true rfl ht
  · rw [readRecord,if_neg ht]
    exact iff_of_false RtLogRecordKind.noConfusion ht

theorem record_type : (readRecord rec).eventType = rec.getD 10 0 := by
  rw [readRecord]
  split_ifs <;> rfl

variable {recs : List Bytes}

theorem records_length (h : ∀ rec ∈ recs, rec.length = 16) :
    recs.flatten.length = 16*recs.length := by
  induction recs with
  | nil => rfl
  | cons rec recs ih =>
    rw [flatten_cons,length_append,h rec mem_cons_self,
      ih (fun r hr => h r (mem_cons_of_mem rec hr)),length_cons]
    omega

theorem read_records (h : ∀ rec ∈ recs, rec.length = 16) :
    readRecords recs.flatten = recs.map readRecord := by
  rw [readRecords,records_length h,Nat.mul_div_cancel_left _ (by decide)]
  induction recs with
  | nil => rfl
  | cons rec recs ih =>
    have hrc := h rec mem_cons_self
    have hn : ∀ i, ((rec::recs).flatten.drop (16*(i+1))) = recs.flatten.drop (16*i) := by
      intro i
      rw [flatten_cons,show 16*(i+1) = rec.length+16*i by omega,drop_append]
      simp
    rw [length_cons,range_succ_eq_map,map_cons,map_map,map_cons,
      ← ih (fun r hr => h r (mem_cons_of_mem rec hr))]
    congr 1
    · rw [Nat.mul_zero,drop_zero,flatten_cons,← hrc,take_left]
    · apply map_congr_left
      intro i _
      rw [Function.comp,Nat.succ_eq_add_one,hn]

theorem records_parsed {recs : List Bytes} (h : ∀ rec ∈ recs, rec.length = 16) :
    List.Forall₂ IsEvent (recs.filter (fun rec => rec.getD 10 0 ≠ 255))
        (parseRTLogBuffer (recordsCsv (recs.map readRecord))).events ∧
      List.Forall₂ IsStatus (recs.filter (fun rec => rec.getD 10 0 = 255))
        (parseRTLogBuffer (recordsCsv (recs.map readRecord))).statuses := by
  have ht : ∀ r ∈ recs.map readRecord, r.kind = .kEvent → r.eventType ≠ 255 := by
    intro r hr hk
    obtain ⟨rec,_,rfl⟩ := mem_map.mp hr
    rw [record_type]
    exact (record_event_iff rec).mp hk
  rw [parseRTLogBuffer,csv_text,csv_lines,parse_records _ ht]
  have he : (recs.map readRecord).filter (fun r => r.kind = .kEvent) =
      (recs.filter (fun rec => rec.getD 10 0 ≠ 255)).map readRecord := by
    rw [filter_map]
    congr 1
    apply filter_congr
    intro rec _
    simp only [Function.comp,record_event_iff]
  have hs : (recs.map readRecord).filter (fun r => r.kind = .kDoorAlarmStatus) =
      (recs.filter (fun rec => rec.getD 10 0 = 255)).map readRecord := by
    rw [filter_map]
    congr 1
    apply filter_congr
    intro rec _
    simp only [Function.comp,record_status_iff]
  rw [he,hs]
  simp only [nil_append,map_map,forall₂_map_right_iff,forall₂_same]
  constructor
  · intro rec hrc
    have hm := mem_filter.mp hrc
    exact event_entry rec (h rec hm.1) (of_decide_eq_true hm.2)
  · intro rec hrc
    have hm := mem_filter.mp hrc
    exact status_entry rec (h rec hm.1) (of_decide_eq_true hm.2)

theorem binary_decoded (recs : List Bytes) (h : ∀ rec ∈ recs, rec.length = 16)
    (sid : UInt16) (nr : ℤ) (block : Bool)
    (hft : (if block then 4 else 0)+16*recs.length < 65536) :
    decodeRtlogBinary (encodeFrame kReplyOk sid nr recs.flatten block) block =
      (.kOk,recs.map readRecord) := by
  have hl := records_length h
  have hf := decode_encoded sid nr recs.flatten block (by rw [hl]; exact hft) []
  rw [append_nil] at hf
  rw [decodeRtlogBinary,decode_frame_of_some hf]
  dsimp only
  rw [if_neg (by rw [hl]; omega), read_records h]

def logRequest (c : Client) : Bytes :=
  encodeRtlogBinaryRequest (!c.nextRequestNr.sessionLess) c.nextRequestNr.sessionId
    c.nextRequestNr.requestNr

/-- What the panel's records say is what the controller gets: from the frame that the client
reads, through the text that it makes of it, to the parsed entries. The times are those of
the panel's count, which is exact for all times that it can count. -/
theorem log_delivered (c : Client) (w : Wire) (records : List Bytes)
    (hrecords : ∀ rec ∈ records, rec.length = 16) (sessionId : UInt16) (requestNr : ℤ)
    (hfits : (if c.sessionLess then 0 else 4)+16*records.length < 65536)
    (hconnected : c.isConnected = true) (hbinary : c.rtlogKeyValueMode = false)
    (hreply : (c.nextRequestNr.transact w (logRequest c)).2.2 =
      some (encodeFrame kReplyOk sessionId requestNr records.flatten (!c.sessionLess))) :
    List.Forall₂ IsEvent (records.filter (fun rec => rec.getD 10 0 ≠ 255))
        (parseRTLogBuffer (c.getRTLog w).2.2.2).events ∧
      List.Forall₂ IsStatus (records.filter (fun rec => rec.getD 10 0 = 255))
        (parseRTLogBuffer (c.getRTLog w).2.2.2).statuses ∧
      ∀ t, Representable t → decodeC3Time (UInt32.ofNat (encodeC3Time t)) = t := by
  have ht : (c.getRTLog w).2.2.2 = Client.recordsCsv (records.map readRecord) := by
    rw [Client.getRTLog, if_neg (by simp [hconnected]), if_neg (by simp [hbinary])]
    rw [logRequest] at hreply
    dsimp only
    generalize c.nextRequestNr.transact w _ = t at hreply ⊢
    obtain ⟨c',w',reply⟩ := t
    obtain rfl : reply = _ := hreply
    have hd := binary_decoded records hrecords sessionId requestNr (!c.sessionLess)
      (by cases hl : c.sessionLess <;> simpa [hl] using hfits)
    dsimp only
    rw [show c.nextRequestNr.sessionLess = c.sessionLess from rfl,hd]
  obtain ⟨he,hs⟩ := records_parsed hrecords
  rw [ht]
  exact ⟨he,hs,decode_encode_time⟩

def twoRecords : List Bytes :=
  [[0x78,0x56,0x34,0x12,7,0,0,0,4,1,0,0,0x10,0x20,0x30,0x31],
    [0,0,0,0,1,0,2,1,0,0,255,0,0x10,0x20,0x30,0x31]]

def logClient : Client := { isOpen := true, connected := true, sessionId := 1 }

theorem two_records_framed :
    IsFrame panelFrames (encodeFrame kReplyOk 1 1 twoRecords.flatten true) :=
  encoded_framed _ _ _ (by decide)

def logWire : Wire where
  answers _ := ⟨encodeFrame kReplyOk 1 1 twoRecords.flatten true,two_records_framed,oneRead,true,
    false⟩

theorem two_records_delivered :
    List.Forall₂ IsEvent (twoRecords.filter (fun rec => rec.getD 10 0 ≠ 255))
      (parseRTLogBuffer (logClient.getRTLog logWire).2.2.2).events :=
  (log_delivered _ _ _ (by decide) 1 1 (by decide) rfl rfl
    (by decide +kernel)).1

end EMaster.RTLog
