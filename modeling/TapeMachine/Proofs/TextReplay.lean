import Mathlib.Data.List.Forall2
import TapeMachine.Channel
import TapeMachine.Pairs
import TapeMachine.Proofs.Numerals
import TapeMachine.Proofs.SavedImage
import TapeMachine.Proofs.TextParts

/-!
# Text channels replay their input

A text channel reads its input once and keeps what it read. So every reader is given the
same values from the first one on, at whatever pace it asks for them, and whatever is done
with the channel meanwhile. The values are those of the fields of the text up to the first one
that is no number. What is sent to the channel is written line by line, and a channel that
reads these lines gives the values back.
-/

namespace TapeMachine

/-- Words that are each followed by a separator are the fields of the text. -/
theorem Text.fieldsBy_flatMap_append {isSeparator : Char → Bool} {s : Char}
    (hs : isSeparator s = true) {words : List (List Char)}
    (hwords : ∀ word ∈ words, word ≠ [] ∧ ∀ c ∈ word, isSeparator c = false) :
    fieldsBy isSeparator (words.flatMap (· ++ [s])) = words := by
  induction words with
  | nil => rfl
  | cons word words ih =>
    obtain ⟨⟨hne, hword⟩, hrest⟩ := List.forall_mem_cons.mp hwords
    rw [List.flatMap_cons, List.append_assoc, List.singleton_append, fieldsBy_append_cons hs,
      fieldsBy_word hne hword, ih hrest, List.singleton_append]

/-! ## What is read of a text -/

namespace Intake

/-- Whether a character stands between the numbers of a text. -/
def separates (c : Char) : Bool := c == ',' || Text.isBlank c

/-- The fields of a text between commas and blanks. -/
def fields (text : String) : List (List Char) :=
  (text.toList.splitOnP separates).filter (!·.isEmpty)

/-- What is read from fields: the values of all of them if they are numbers, and of those
before the first one that is none otherwise. -/
inductive Reads : List (List Char) → Intake → Prop where
  | all {good : List (List Char)} {values : List Word}
    (hgood : List.Forall₂ Numeral.Denotes good values) : Reads good ⟨values, none⟩
  | upTo {good : List (List Char)} {values : List Word} {bad : List Char}
    (hgood : List.Forall₂ Numeral.Denotes good values) (hbad : ∀ w, ¬ Numeral.Denotes bad w)
    (behind : List (List Char)) :
    Reads (good ++ bad :: behind) ⟨values, some (.badField values.length (String.ofList bad))⟩

/-- What is read from a source. One that fails gives no values. -/
inductive ReadsSource : Source → Intake → Prop where
  | failed (text failure : String) :
    ReadsSource ⟨text, some failure⟩ ⟨[], some (.readFailed failure)⟩
  | read {text : String} {intake : Intake} (hreads : Reads (fields text) intake) :
    ReadsSource ⟨text, none⟩ intake

/-- Fields that all are numbers are read as these numbers. -/
theorem ofFields_of_forall₂ {fields : List (List Char)} {values : List Word}
    (hwords : List.Forall₂ (fun field w => word? field = some w) fields values) :
    ofFields fields = ⟨values, none⟩ := by
  obtain ⟨hgood, hvalues⟩ := Outcome.forall₂_eq_some_iff.mp hwords
  have hall : fields.takeWhile (fun field => (word? field).isSome) = fields :=
    List.takeWhile_eq_self_iff.mpr fun field hfield =>
      Option.isSome_iff_exists.mpr (hgood field hfield)
  unfold ofFields
  simp only [hall, hvalues, List.getElem?_length, Option.map_none]

/-- The fields in front of the first one that is no number are read. -/
theorem ofFields_append {good : List (List Char)} {values : List Word} {bad : List Char}
    (hwords : List.Forall₂ (fun field w => word? field = some w) good values)
    (hbad : word? bad = none) (behind : List (List Char)) :
    ofFields (good ++ bad :: behind) =
      ⟨values, some (.badField values.length (String.ofList bad))⟩ := by
  obtain ⟨hgood, hvalues⟩ := Outcome.forall₂_eq_some_iff.mp hwords
  have hfront : (good ++ bad :: behind).takeWhile (fun field => (word? field).isSome) = good := by
    rw [List.takeWhile_append_of_pos fun field hfield =>
        Option.isSome_iff_exists.mpr (hgood field hfield),
      List.takeWhile_cons_of_neg (by simp [hbad]), List.append_nil]
  unfold ofFields
  simp only [hfront, hvalues, List.getElem?_append_right (Nat.le_refl good.length), Nat.sub_self,
    List.getElem?_cons_zero, Option.map_some]
  rw [hwords.length_eq]

/-- What is read from fields reaches up to the first one that is no number. -/
theorem reads_ofFields (fields : List (List Char)) : Reads fields (ofFields fields) := by
  have hdenotes {good : List (List Char)} {values : List Word}
      (hwords : List.Forall₂ (fun field w => word? field = some w) good values) :
      List.Forall₂ Numeral.Denotes good values :=
    hwords.imp fun _ _ => Numeral.word?_readDecimal_iff.mp
  rcases Outcome.defined_or_exists_first word? fields with
    hgood | ⟨good, bad, behind, rfl, hgood, hbad⟩
  · have hwords := Outcome.forall₂_eq_some_iff.mpr ⟨hgood, rfl⟩
    rw [ofFields_of_forall₂ hwords]
    exact .all (hdenotes hwords)
  · have hwords := Outcome.forall₂_eq_some_iff.mpr ⟨hgood, rfl⟩
    rw [ofFields_append hwords hbad]
    refine .upTo (hdenotes hwords) (fun w hw => ?_) behind
    have hword : word? bad = some w := Numeral.word?_readDecimal_iff.mpr hw
    rw [hbad] at hword
    cases hword

/-- A source is read in one way. -/
private theorem readsSource_ofSource (source : Source) : ReadsSource source (ofSource source) := by
  obtain ⟨text, failure⟩ := source
  cases failure with
  | some failure => exact .failed text failure
  | none =>
    have hfields : Text.fieldsBy (fun c => c == ',' || Text.isBlank c) text.toList =
        fields text := by
      unfold Text.fieldsBy fields
      rw [Text.pieces_eq_splitOnP]
      rfl
    refine .read ?_
    unfold ofSource
    dsimp only
    rw [hfields]
    exact reads_ofFields _

/-- Words in decimal are read as these words. -/
theorem ofFields_numerals (values : List Word) :
    ofFields (Image.numerals values) = ⟨values, none⟩ := by
  apply ofFields_of_forall₂
  rw [Image.numerals, List.forall₂_map_left_iff, List.forall₂_same]
  exact fun w _ => Image.word?_ofWord w

end Intake

/-! ## What is written of values -/

namespace TextChannel

/-- Values on lines of their own. -/
def lines (values : List Word) : String :=
  String.ofList ((Image.numerals values).flatMap (· ++ ['\n']))

/-- Sends a value to the sink, which may refuse it. -/
def put (t : TextChannel) (value : Word) : TextChannel :=
  if t.sink.failure = none then t.write value else t

/-- Puts values out, one after the other. -/
def putAll (t : TextChannel) (values : List Word) : TextChannel := values.foldl put t

/-- A value that is sent is put out, or refused as the sink says. -/
theorem send_text (t : TextChannel) (value : Word) :
    (Channel.text t).send value = (t.sink.failure.map .writeFailed, .text (t.put value)) := by
  obtain ⟨input, intake, written, failure⟩ := t
  cases failure with
  | none => rfl
  | some failure => rfl

/-- Sending changes what was written, and nothing else. -/
theorem putAll_eq (t : TextChannel) (values : List Word) :
    t.putAll values =
      { t with sink.written :=
          if t.sink.failure = none then t.sink.written ++ lines values else t.sink.written } := by
  induction values generalizing t with
  | nil =>
    have hnone : t.sink.written ++ lines [] = t.sink.written := String.append_empty
    rw [hnone, ite_self]
    rfl
  | cons value values ih =>
    have hlines : lines (value :: values) = Numeral.ofWord value ++ "\n" ++ lines values := by
      rw [← String.toList_inj]
      simp [lines, Image.numerals]
    have hstep : t.putAll (value :: values) = (t.put value).putAll values := rfl
    rw [hstep, ih]
    obtain ⟨input, intake, written, failure⟩ := t
    cases failure with
    | none =>
      rw [hlines]
      simp [put, write, Sink.write, String.append_assoc]
    | some failure => simp [put]

/-- Values are put out one after the other. -/
theorem putAll_append (t : TextChannel) (values more : List Word) :
    t.putAll (values ++ more) = (t.putAll values).putAll more := List.foldl_append

/-- The lines of values are read as these values. -/
theorem ofSource_lines (values : List Word) :
    Intake.ofSource { text := lines values } = ⟨values, none⟩ := by
  have hnewline : Intake.separates '\n' = true := by decide
  have hfields : Text.fieldsBy Intake.separates (lines values).toList = Image.numerals values := by
    rw [lines, String.toList_ofList]
    refine Text.fieldsBy_flatMap_append hnewline fun numeral hnumeral => ⟨?_, fun c hc => ?_⟩
    · obtain ⟨w, _, rfl⟩ := List.mem_map.mp hnumeral
      exact Numeral.toList_ofWord_ne_nil w
    · obtain ⟨hblank, hcomma, _⟩ := Image.plain_of_mem_numerals numeral hnumeral c hc
      simp [Intake.separates, hblank, hcomma]
  change Intake.ofFields (Text.fieldsBy Intake.separates (lines values).toList) = _
  rw [hfields, Intake.ofFields_numerals]

/-- A reader of a text channel is given its values up to the limit. Of the feed as many values
are sent meanwhile as it is given. -/
theorem receiveFrom_text {fuel : Nat} {left : List Word} (hfuel : left.length < fuel)
    (limit : Option Nat) (feed : List Word) (t : TextChannel) :
    Channel.receiveFrom fuel limit feed (some left) (.text t) =
      let given := Pairs.upTo limit left
      let sent := feed.take given.length
      ⟨given, sent.map fun value => (value, t.sink.failure.map .writeFailed),
        .text (t.putAll sent)⟩ := by
  induction left generalizing fuel limit feed t with
  | nil =>
    obtain ⟨fuel, rfl⟩ := Nat.exists_eq_succ_of_ne_zero (Nat.ne_zero_of_lt hfuel)
    have hnone : Pairs.upTo limit ([] : List Word) = [] := by
      cases limit <;> simp [Pairs.upTo]
    unfold Channel.receiveFrom
    rw [hnone]
    split
    · rfl
    · rfl
  | cons value left ih =>
    obtain ⟨fuel, rfl⟩ := Nat.exists_eq_succ_of_ne_zero (Nat.ne_zero_of_lt hfuel)
    have hfuel' : left.length < fuel := by
      rw [List.length_cons] at hfuel
      omega
    unfold Channel.receiveFrom
    by_cases hlimit : limit = some 0
    · rw [if_pos hlimit, hlimit]
      rfl
    · have hgiven : Pairs.upTo limit (value :: left) =
          value :: Pairs.upTo (limit.map (· - 1)) left := by
        cases limit with
        | none => rfl
        | some n =>
          cases n with
          | zero => exact absurd rfl hlimit
          | succ n => rfl
      rw [if_neg hlimit, hgiven]
      cases feed with
      | nil =>
        simp only [Channel.next?, Channel.feedOnce, ih hfuel', List.take_nil]
        rfl
      | cons first feed =>
        have hfailure : (t.put first).sink.failure = t.sink.failure := by
          have hput := putAll_eq t [first]
          exact congrArg (·.sink.failure) hput
        simp only [Channel.next?, Channel.feedOnce, send_text, ih hfuel', hfailure,
          List.length_cons, List.take_succ_cons, List.map_cons]
        rfl

end TextChannel

/-! ## Sessions -/

namespace Channel

/-- Something that is done with a channel. -/
inductive Use where
  | send (value : Word)
  | rewind
  /-- A further reader starts. -/
  | start
  /-- A reader, counted from zero, asks for its next value. -/
  | next (reader : Nat)
  /-- Values are received up to a limit, and others are sent meanwhile. -/
  | receive (limit : Option Nat) (feed : List Word)
  | collect

/-- Whether the channel is asked for values. -/
def Use.reads : Use → Bool
  | start | collect => true
  | receive limit _ => limit != some 0
  | send _ | rewind | next _ => false

/-- A reader, with how often it asked and what it was given. -/
structure Reader where
  cursor : Cursor
  asked : Nat := 0
  given : List Word := []

/-- A channel, and what was done with it. -/
structure Session where
  channel : Channel
  readers : List Reader := []
  /-- The values received at one go, with the limit. -/
  receptions : List (Option Nat × List Word) := []
  /-- The values sent, each with the error if it was refused. -/
  sent : List (Word × Option ChannelError) := []

namespace Session

/-- A reader asks for its next value. -/
def next (s : Session) (i : Nat) : Session :=
  match s.readers[i]? with
  | none => s
  | some r =>
    match s.channel.next? r.cursor with
    | none => { s with readers := s.readers.set i { r with asked := r.asked + 1 } }
    | some (value, cursor, channel) =>
      { s with channel, readers := s.readers.set i ⟨cursor, r.asked + 1, r.given ++ [value]⟩ }

/-- The session behind one use. -/
def use (s : Session) : Use → Session
  | .send value =>
    let r := s.channel.send value
    { s with channel := r.2, sent := s.sent ++ [(value, r.1)] }
  | .rewind => { s with channel := s.channel.rewind }
  | .start =>
    let r := s.channel.start
    { s with channel := r.2, readers := s.readers ++ [{ cursor := r.1 }] }
  | .next i => s.next i
  | .receive limit feed =>
    let r := s.channel.receive limit feed
    { s with
      channel := r.channel
      receptions := s.receptions ++ [(limit, r.values)]
      sent := s.sent ++ r.sent }
  | .collect =>
    let r := s.channel.collect
    { s with channel := r.2, receptions := s.receptions ++ [(none, r.1)] }

/-- The session behind uses, one after the other. -/
def useAll (s : Session) (uses : List Use) : Session := uses.foldl use s

/-- The values that were sent. -/
def sentValues (s : Session) : List Word := s.sent.map Prod.fst

/-- A text channel for a source and a sink, of which the input was read or not. -/
def textChannel (source : Source) (sink : Sink) (loaded : Bool) : TextChannel :=
  { input := some source, intake := if loaded then some (.ofSource source) else none, sink }

/-- The channel of a session replays these values to all readers, and takes what it is sent. -/
structure Replays (source : Source) (sink : Sink) (loaded : Bool) (s : Session) : Prop where
  channel : s.channel = .text ((textChannel source sink loaded).putAll s.sentValues)
  reader : ∀ r ∈ s.readers, r.given = (Intake.ofSource source).values.take r.asked ∧
    r.cursor = some ((Intake.ofSource source).values.drop r.asked)
  reception : ∀ r ∈ s.receptions, r.2 = Pairs.upTo r.1 (Intake.ofSource source).values
  refusal : ∀ r ∈ s.sent, r.2 = sink.failure.map .writeFailed

/-- It makes no difference whether a channel is loaded before or after values are put out. -/
theorem load_putAll (source : Source) (sink : Sink) (loaded : Bool) (values : List Word) :
    ((textChannel source sink loaded).putAll values).load =
      (textChannel source sink true).putAll values := by
  rw [TextChannel.putAll_eq, TextChannel.putAll_eq]
  cases loaded with
  | true => rfl
  | false => rfl

/-- Putting values out makes no difference to those that are read. -/
theorem values_putAll (source : Source) (sink : Sink) (values : List Word) :
    ((textChannel source sink true).putAll values).values = (Intake.ofSource source).values := by
  rw [TextChannel.putAll_eq]
  rfl

/-- Putting values out makes no difference to whether the sink fails. -/
theorem failure_putAll (source : Source) (sink : Sink) (loaded : Bool) (values : List Word) :
    ((textChannel source sink loaded).putAll values).sink.failure = sink.failure := by
  rw [TextChannel.putAll_eq]
  rfl

variable {source : Source} {sink : Sink} {loaded : Bool} {s : Session}

/-- A new reader begins with all values of the source. -/
theorem Replays.start_eq (h : s.Replays source sink loaded) :
    s.channel.start = (some (Intake.ofSource source).values,
      .text ((textChannel source sink true).putAll s.sentValues)) := by
  rw [h.channel]
  unfold Channel.start
  dsimp only
  rw [load_putAll, values_putAll]

/-- All values of the source are collected. -/
theorem Replays.collect_eq (h : s.Replays source sink loaded) :
    s.channel.collect = ((Intake.ofSource source).values,
      .text ((textChannel source sink true).putAll s.sentValues)) := by
  rw [h.channel]
  unfold Channel.collect
  dsimp only
  rw [load_putAll, values_putAll]

/-- A reader that asks again is given one value more, as long as there are any. -/
theorem Replays.next (h : s.Replays source sink loaded) (i : Nat) :
    (s.next i).Replays source sink loaded := by
  unfold Session.next
  cases hreader : s.readers[i]? with
  | none => exact h
  | some r =>
    obtain ⟨hgiven, hcursor⟩ := h.reader r (List.mem_of_getElem? hreader)
    dsimp only
    rw [hcursor]
    set values := (Intake.ofSource source).values with hvalues
    have htake := List.take_add_one (l := values) (i := r.asked)
    rw [← List.head?_drop] at htake
    have hdrop := List.tail_drop (l := values) (i := r.asked)
    cases hleft : values.drop r.asked with
    | nil =>
      rw [hleft, List.head?_nil, Option.toList_none, List.append_nil] at htake
      rw [hleft, List.tail_nil] at hdrop
      refine ⟨h.channel, fun r' hr' => ?_, h.reception, h.refusal⟩
      rcases List.mem_or_eq_of_mem_set hr' with hr' | rfl
      · exact h.reader r' hr'
      · exact ⟨hgiven.trans htake.symm, congrArg some hdrop⟩
    | cons value left =>
      rw [hleft, List.head?_cons, Option.toList_some, ← hgiven] at htake
      rw [hleft, List.tail_cons] at hdrop
      refine ⟨h.channel, fun r' hr' => ?_, h.reception, h.refusal⟩
      rcases List.mem_or_eq_of_mem_set hr' with hr' | rfl
      · exact h.reader r' hr'
      · exact ⟨htake.symm, congrArg some hdrop⟩

/-- What was sent makes no difference to what is replayed. -/
theorem Replays.send (h : s.Replays source sink loaded) (value : Word) :
    (s.use (.send value)).Replays source sink loaded := by
  have hsend : s.channel.send value = (sink.failure.map .writeFailed,
      .text ((textChannel source sink loaded).putAll (s.sentValues ++ [value]))) := by
    rw [h.channel, TextChannel.send_text, failure_putAll, TextChannel.putAll_append]
    rfl
  have hsent : s.sentValues ++ [value] = (s.use (.send value)).sentValues := by
    simp [sentValues, use]
  refine ⟨?_, h.reader, h.reception, ?_⟩
  · rw [← hsent]
    exact congrArg Prod.snd hsend
  · simp only [use, hsend, List.forall_mem_append, List.forall_mem_singleton]
    exact ⟨h.refusal, trivial⟩

/-- Receiving at one go gives the values from the first one on up to the limit. -/
theorem Replays.receive_eq (h : s.Replays source sink loaded) {limit : Option Nat}
    (hlimit : limit ≠ some 0) (feed : List Word) :
    let given := Pairs.upTo limit (Intake.ofSource source).values
    let sent := feed.take given.length
    s.channel.receive limit feed =
      ⟨given, sent.map fun value => (value, sink.failure.map .writeFailed),
        .text ((textChannel source sink true).putAll (s.sentValues ++ sent))⟩ := by
  unfold Channel.receive
  rw [if_neg hlimit, h.start_eq]
  dsimp only
  rw [TextChannel.receiveFrom_text (by simp only [waiting]; omega), failure_putAll]
  dsimp only
  rw [← TextChannel.putAll_append]

/-- A loop makes no difference to what is replayed. -/
theorem Replays.receive (h : s.Replays source sink loaded) (limit : Option Nat)
    (feed : List Word) :
    (s.use (.receive limit feed)).Replays source sink (loaded || limit != some 0) := by
  by_cases hlimit : limit = some 0
  · have hreceive : s.channel.receive limit feed = { channel := s.channel } := if_pos hlimit
    have hloaded : (loaded || limit != some 0) = loaded := by simp [hlimit]
    rw [hloaded]
    refine ⟨?_, h.reader, ?_, ?_⟩
    · have hsent : (s.use (.receive limit feed)).sentValues = s.sentValues := by
        simp [sentValues, use, hreceive]
      rw [hsent, ← h.channel]
      exact congrArg Received.channel hreceive
    · simp only [use, hreceive, List.forall_mem_append, List.forall_mem_singleton]
      exact ⟨h.reception, by rw [hlimit]; rfl⟩
    · simpa only [use, hreceive, List.append_nil] using h.refusal
  · have hreceive := h.receive_eq hlimit feed
    set sent := feed.take (Pairs.upTo limit (Intake.ofSource source).values).length
    have hloaded : (loaded || limit != some 0) = true := by simp [hlimit]
    have hsent : (s.use (.receive limit feed)).sentValues = s.sentValues ++ sent := by
      simp only [sentValues, use, hreceive, List.map_append, List.map_map]
      congr 1
      exact List.map_id sent
    rw [hloaded]
    refine ⟨?_, h.reader, ?_, ?_⟩
    · rw [hsent]
      exact congrArg Received.channel hreceive
    · simp only [use, hreceive, List.forall_mem_append, List.forall_mem_singleton]
      exact ⟨h.reception, trivial⟩
    · simp only [use, hreceive, List.forall_mem_append, List.forall_mem_map]
      exact ⟨h.refusal, fun _ _ => trivial⟩

/-- Whatever is done with a channel, it goes on replaying. -/
theorem Replays.use (h : s.Replays source sink loaded) (u : Use) :
    (s.use u).Replays source sink (loaded || u.reads) := by
  cases u with
  | send value =>
    rw [Use.reads, Bool.or_false]
    exact h.send value
  | rewind =>
    rw [Use.reads, Bool.or_false]
    refine ⟨?_, h.reader, h.reception, h.refusal⟩
    change s.channel.rewind = _
    rw [h.channel]
    rfl
  | start =>
    rw [Use.reads, Bool.or_true]
    refine ⟨congrArg Prod.snd h.start_eq, ?_, h.reception, h.refusal⟩
    simp only [Session.use, h.start_eq, List.forall_mem_append, List.forall_mem_singleton]
    exact ⟨h.reader, rfl, rfl⟩
  | next i =>
    rw [Use.reads, Bool.or_false]
    exact h.next i
  | receive limit feed => exact h.receive limit feed
  | collect =>
    rw [Use.reads, Bool.or_true]
    refine ⟨congrArg Prod.snd h.collect_eq, h.reader, ?_, h.refusal⟩
    simp only [Session.use, h.collect_eq, List.forall_mem_append, List.forall_mem_singleton]
    exact ⟨h.reception, rfl⟩

/-- Uses make no difference to what is replayed. -/
theorem Replays.useAll (h : s.Replays source sink loaded) (uses : List Use) :
    (s.useAll uses).Replays source sink (loaded || uses.any Use.reads) := by
  induction uses generalizing s loaded with
  | nil => rwa [List.any_nil, Bool.or_false]
  | cons u uses ih =>
    have hrest := ih (h.use u)
    rwa [Bool.or_assoc] at hrest

/-- Nothing was done with a channel yet. -/
theorem replays_new (source : Source) (sink : Sink) :
    Replays source sink false { channel := .text { input := some source, sink } } :=
  ⟨rfl, by simp, by simp, by simp⟩

/-- A channel gives the values of lines back. -/
theorem receive_lines (values : List Word) :
    (Channel.text { input := some { text := TextChannel.lines values } }).receive none [] =
      ⟨values, [], .text (textChannel { text := TextChannel.lines values } {} true)⟩ := by
  have hlimit : (none : Option Nat) ≠ some 0 := by decide
  have hreceive := (replays_new { text := TextChannel.lines values } {}).receive_eq hlimit []
  dsimp only at hreceive
  rw [TextChannel.ofSource_lines, List.take_nil] at hreceive
  exact hreceive

end Session

/-- A text channel replays its input, and its output is input again. Whatever is done with it,
every reader is given the values from the first one on, one for each time that it asked, and so
is whoever receives at one go. These are the values of the fields between commas and blanks, up
to the first field that is no number. It becomes the error of the channel once it was read, as
does the failure of the source, which then gives no values. If the sink works, everything that
is sent is written, and is received in this order and without an error from a channel that has
the written text as its input. -/
theorem text_channel_replays (source : Source) (sink : Sink) (uses : List Use) :
    let s := Session.useAll { channel := .text { input := some source, sink } } uses
    ∃ t intake text, s.channel = .text t ∧ t.sink.written = sink.written ++ text ∧
      Intake.ReadsSource source intake ∧
      (∀ r ∈ s.readers, r.given = intake.values.take r.asked) ∧
      (∀ r ∈ s.receptions, r.2 = Pairs.upTo r.1 intake.values) ∧
      t.error = (if uses.any Use.reads then intake.error else none) ∧
      (∀ r ∈ s.sent, r.2 = sink.failure.map .writeFailed) ∧
      (sink.failure = none →
        ∃ t', (Channel.text { input := some { text } }).receive none [] =
          ⟨s.sentValues, [], .text t'⟩ ∧ t'.error = none) := by
  intro s
  have hreplays := (Session.replays_new source sink).useAll uses
  rw [Bool.false_or] at hreplays
  refine ⟨_, Intake.ofSource source,
    if sink.failure = none then TextChannel.lines s.sentValues else "", hreplays.channel, ?_,
    Intake.readsSource_ofSource source, fun r hr => (hreplays.reader r hr).1, hreplays.reception,
    ?_, hreplays.refusal, fun hsink => ?_⟩
  · rw [TextChannel.putAll_eq]
    change (if sink.failure = none then sink.written ++ _ else sink.written) = _
    by_cases hsink : sink.failure = none
    · rw [if_pos hsink, if_pos hsink]
    · rw [if_neg hsink, if_neg hsink, String.append_empty]
  · rw [TextChannel.putAll_eq]
    cases uses.any Use.reads with
    | true => rfl
    | false => rfl
  · rw [if_pos hsink]
    refine ⟨_, Session.receive_lines s.sentValues, ?_⟩
    exact congrArg Intake.error (TextChannel.ofSource_lines s.sentValues)

example :
    let s := Session.useAll { channel := .text { input := some { text := "+1,-2\n 03 x4 5" } } }
      [.start, .next 0, .send 7, .start, .next 1, .rewind, .receive (some 2) [8], .next 1]
    s.readers.map Reader.given = [[1], [1, -2]] ∧ s.receptions = [(some 2, [1, -2])] ∧
      s.sentValues = [7, 8] := by
  decide +kernel

end Channel

end TapeMachine
