import Schematic.Document.Declaration
import Schematic.Document.Source
import Schematic.Proofs.Codec.Lawful

/-! Documents are read back as they were written. Every record type of documents has a lawful codec,
    from the entries without entries of their own up to the whole document. -/

namespace Schematic

open Codec

theorem Theme.codec_lawful : Theme.codec.Lawful :=
  choice_lawful fun t => by cases t <;> decide

theorem LinkKind.codec_lawful : LinkKind.codec.Lawful :=
  choice_lawful fun k => by cases k <;> decide

theorem optional_string_lawful : (optional string).Lawful :=
  optional_lawful string_lawful fun _ => nofun

theorem optional_theme_lawful : (optional Theme.codec).Lawful :=
  optional_lawful Theme.codec_lawful fun _ => nofun

theorem Options.codec_lawful : Options.record.codec.Lawful :=
  RecordType.codec_lawful
    (.cons (flag_lawful.copies ..) <| .cons (flag_lawful.copies ..) <|
      .cons (flag_lawful.copies ..) <| .cons ((text_lawful _).copies ..) <|
      .cons (optional_theme_lawful.copies ..) <| .cons (string_lawful.copies ..) .nil)
    (by decide) (by decide) fun _ => rfl

theorem GroupEntry.codec_lawful : GroupEntry.record.codec.Lawful :=
  RecordType.codec_lawful
    (.cons (string_lawful.copies ..) <| .cons (optional_string_lawful.copies ..) <|
      .cons (optional_string_lawful.copies ..) .nil)
    (by decide) (by decide) fun _ => rfl

theorem HostEntry.codec_lawful : HostEntry.record.codec.Lawful :=
  RecordType.codec_lawful
    (.cons (string_lawful.copies ..) <| .cons (flag_lawful.copies ..) <|
      .cons (optional_string_lawful.copies ..) .nil)
    (by decide) (by decide) fun _ => rfl

theorem InstanceEntry.codec_lawful : InstanceEntry.record.codec.Lawful :=
  RecordType.codec_lawful
    (.cons (string_lawful.copies ..) <| .cons (optional_string_lawful.copies ..) <|
      .cons (optional_string_lawful.copies ..) <| .cons (flag_lawful.copies ..) <|
      .cons (optional_string_lawful.copies ..) <| .cons (optional_string_lawful.copies ..) .nil)
    (by decide) (by decide) fun _ => rfl

theorem LabelEntry.codec_lawful : LabelEntry.record.codec.Lawful :=
  RecordType.codec_lawful
    (.cons ((listOf_lawful string_lawful).copies ..) <| .cons (string_lawful.copies ..) .nil)
    (by decide) (by decide) fun _ => rfl

theorem ProcessorEntry.codec_lawful : ProcessorEntry.record.codec.Lawful :=
  RecordType.codec_lawful
    (.cons (string_lawful.copies ..) <|
      .cons ((listOf_lawful LabelEntry.codec_lawful).copies ..) .nil)
    (by decide) (by decide) fun _ => rfl

theorem LinkEntry.codec_lawful : LinkEntry.record.codec.Lawful :=
  RecordType.codec_lawful
    (.cons ((listOf_lawful string_lawful).copies ..) <| .cons (LinkKind.codec_lawful.copies ..) <|
      .cons (flag_lawful.copies ..) <| .cons (flag_lawful.copies ..) <|
      .cons (flag_lawful.copies ..) <| .cons (optional_string_lawful.copies ..) .nil)
    (by decide) (by decide) fun _ => rfl

theorem SystemEntry.codec_lawful : SystemEntry.record.codec.Lawful :=
  RecordType.codec_lawful
    (.cons (string_lawful.copies ..) <|
      .cons ((optional_lawful (listOf_lawful string_lawful) fun _ => nofun).copies ..) <|
      .cons ((listOf_lawful LinkEntry.codec_lawful).copies ..) <|
      .cons ((listOf_lawful string_lawful).copies ..) .nil)
    (by decide) (by decide) fun _ => rfl

namespace Document

theorem codec_lawful : Document.record.codec.Lawful :=
  RecordType.codec_lawful
    (.cons (optional_theme_lawful.copies ..) <| .cons (Options.codec_lawful.copies ..) <|
      .cons ((listOf_lawful GroupEntry.codec_lawful).copies ..) <|
      .cons ((listOf_lawful HostEntry.codec_lawful).copies ..) <|
      .cons ((listOf_lawful InstanceEntry.codec_lawful).copies ..) <|
      .cons ((listOf_lawful ProcessorEntry.codec_lawful).copies ..) <|
      .cons ((listOf_lawful SystemEntry.codec_lawful).copies ..) .nil)
    (by decide) (by decide) fun _ => rfl

theorem decode_encode (d : Document) : decode .json d.encode = .ok d := by
  simp only [decode, Codec.read, encode, codec_lawful.readJson_writeJson d]

/-- Different documents are written differently. So nothing that is absent looks like something
    empty. -/
theorem encode_injective : Function.Injective encode := by
  intro d e h
  exact Except.ok.inj
    ((decode_encode d).symm.trans ((congrArg (decode .json) h).trans (decode_encode e)))

/-- A document that was written as JSON is read back exactly, as a value and as a text. The copy is
    accepted or refused as the document is, asks for the same options, and declares and draws the
    same. -/
theorem json_round_trip (d : Document) :
    Document.record.ofJson (Document.record.toJson d) = .ok d ∧
    parse .json d.encode = (fun _ => d) <$> d.check ∧
    ∃ copy, decode .json d.encode = .ok copy ∧ copy = d ∧
      copy.validate = d.validate ∧ copy.effectiveOptions = d.effectiveOptions ∧
      (∀ s, copy.declare s = d.declare s) ∧ copy.renderDot = d.renderDot := by
  have hdecode := decode_encode d
  refine ⟨codec_lawful.ofJson_toJson d, ?_, d, hdecode, rfl, rfl, rfl, fun _ => rfl, rfl⟩
  simp only [parse, hdecode, bind, Except.bind]
  cases d.check <;> rfl

end Document

end Schematic
