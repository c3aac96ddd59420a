import PubSub.Config.Variables
import PubSub.Proofs.Config.Members

/-!
# Configurations read back

A configuration that was written as a document is read back as it was, setting by setting, and then accepted or not.
Whatever is accepted, from a document or from variables, can be written and read again.
-/

namespace PubSub
namespace Document

section Values

theorem toList_quote (s : String) : (Json.quote s).toList = '"' :: (s.toList.flatMap Json.escape ++ ['"']) :=
  String.toList_ofList

private theorem gives_quote (s : String) : GivesString (Json.quote s).toList s := by
  rw [toList_quote]
  exact ⟨Json.spells_escape s.toList⟩

private theorem isNatural_toString (n : UInt64) : Json.IsNatural (toString n.toNat).toList n := by
  rw [Nat.toString_eq_ofList_toDigits, String.toList_ofList]
  exact Json.isNatural_toDigits n

private theorem gives_optionalText (o : Option UInt64) : GivesOptional (Config.optionalText o).toList o := by
  cases o with
  | none => exact .null
  | some n => exact .natural (isNatural_toString n)

theorem gives_fieldText (c : Config) (f : Field) : Gives (c.fieldText f).toList f (c.get f) := by
  cases f with
  | workerThreads | maxPublishDepth => exact gives_optionalText _
  | maxWorkerThreads => exact isNatural_toString _
  | threadName => exact gives_quote _
  | deadEvents => exact .name (gives_quote _)
  | enableLogging =>
    show GivesFlag (if c.enableLogging then "true" else "false" : String).toList c.enableLogging
    cases c.enableLogging with
    | true => exact .truth
    | false => exact .falsity

end Values

section Members

def memberText (c : Config) (f : Field) : List Char :=
  f.name.toList.flatMap Json.escape ++ '"' :: ':' :: (c.fieldText f).toList

/-- The members of an object after the first, each with its comma. -/
def membersText (c : Config) (fs : List Field) : List Char :=
  fs.flatMap fun f => ',' :: '"' :: memberText c f

/-- The settings as members, in their order. -/
def settings (c : Config) (fs : List Field) : List Member :=
  fs.map fun f => (f.name, (c.fieldText f).toList)

private theorem isMember_memberText (c : Config) (f : Field) :
    Json.IsMember f.name.toList (c.fieldText f).toList ('"' :: memberText c f) :=
  Json.isMember_escape _ _

private theorem moreMembers_membersText (c : Config) (fs : List Field) :
    MoreMembers (settings c fs) (membersText c fs) := by
  induction fs with
  | nil => exact .none
  | cons f fs ih => exact .some (isValue_of_gives (gives_fieldText c f)) (isMember_memberText c f) ih

theorem toList_toJson (c : Config) : c.toJson.toList =
    '\x7b' :: ('"' :: memberText c .workerThreads ++ membersText c Field.all.tail ++ ['\x7d']) := by
  simp [Config.toJson, Field.all, membersText, memberText, toList_quote]

theorem isObject_toJson (c : Config) : IsObject (settings c Field.all) c.toJson.toList := by
  rw [toList_toJson]
  show IsObject ((Field.workerThreads.name, _) :: settings c Field.all.tail) _
  simpa using IsObject.some Json.isBlanks_nil Json.isBlanks_nil (isValue_of_gives (gives_fieldText c .workerThreads))
    (isMember_memberText c .workerThreads) (moreMembers_membersText c Field.all.tail)

theorem describes_settings (c c' : Config) : Describes (settings c Field.all) c' c := by
  intro f
  constructor
  · intro v hv
    obtain ⟨g, -, hg⟩ := List.mem_map.1 hv
    obtain ⟨hname, rfl⟩ := Prod.mk.inj hg
    obtain rfl := Field.name_injective hname
    exact gives_fieldText c g
  · intro habsent
    have hmem : f ∈ Field.all := by cases f <;> decide
    exact absurd (mem_named.2 ⟨_, List.mem_map.2 ⟨f, hmem, rfl⟩⟩) habsent

theorem read_toJson (c : Config) : read c.toJson.toList = .ok c := by
  have hnamed : named (settings c Field.all) = Field.all := rfl
  exact (read_object_iff (isObject_toJson c) (by rw [hnamed]; decide)).2 (describes_settings c .default)

end Members

end Document

namespace Config

variable {c : Config}

theorem validated_eq_ok_iff {c' : Config} : c.validated = .ok c' ↔ c.validate = .ok () ∧ c' = c := by
  rw [validated, bind_eq_ok_iff]
  constructor
  · rintro ⟨⟨⟩, haccepted, hsame⟩
    exact ⟨haccepted, (pure_eq_ok_iff.1 hsame).symm⟩
  · rintro ⟨haccepted, rfl⟩
    exact ⟨(), haccepted, rfl⟩

theorem validated_eq_error_iff {e : ConfigError} : c.validated = .error e ↔ c.validate = .error e := by
  rw [validated, bind_eq_error_iff]
  constructor
  · rintro (hrefused | ⟨⟨⟩, -, hrefused⟩)
    · exact hrefused
    · cases hrefused
  · exact Or.inl

theorem ofJson_toJson (c : Config) : ofJson c.toJson = c.validated := by
  rw [ofJson, Document.read_toJson]

theorem validate_of_ofJson {text : String} (h : ofJson text = .ok c) : c.validate = .ok () := by
  rw [ofJson] at h
  split at h
  · cases h
  · obtain ⟨haccepted, rfl⟩ := validated_eq_ok_iff.1 h
    exact haccepted

theorem validate_of_loadFields {lookup : String → Lookup} {stem : String} {c' : Config} {fs : List Field}
    (h : (Variables.loadFields lookup stem c' fs).result = .ok c) : c.validate = .ok () := by
  induction fs generalizing c' with
  | nil =>
    obtain ⟨haccepted, rfl⟩ := validated_eq_ok_iff.1 h
    exact haccepted
  | cons f fs ih =>
    simp only [Variables.loadFields] at h
    split at h
    · exact ih h
    · cases h
    · split at h
      · cases h
      · exact ih h

/-- Any configuration, with numbers up to 64 bits and any name of any characters, is read back from its own document
as it was if it is accepted, and else for the reason that it is not accepted. Whatever is read from a document or from
variables is accepted, so it is read back once it is written. -/
theorem document_round_trip (c : Config) :
    (c.validate = .ok () → ofJson c.toJson = .ok c) ∧
    (∀ e, c.validate = .error e → ofJson c.toJson = .error e) ∧
    (∀ text, ofJson text = .ok c → c.validate = .ok () ∧ ofJson c.toJson = .ok c) ∧
    ∀ lookup stem, (Variables.load lookup stem).result = .ok c → c.validate = .ok () ∧ ofJson c.toJson = .ok c := by
  have haccepted (h : c.validate = .ok ()) : ofJson c.toJson = .ok c := by
    rw [ofJson_toJson]
    exact validated_eq_ok_iff.2 ⟨h, rfl⟩
  refine ⟨haccepted, ?_, ?_, ?_⟩
  · intro e hrefused
    rw [ofJson_toJson]
    exact validated_eq_error_iff.2 hrefused
  · intro text h
    exact ⟨validate_of_ofJson h, haccepted (validate_of_ofJson h)⟩
  · intro lookup stem h
    have hvalid : c.validate = .ok () := validate_of_loadFields h
    exact ⟨hvalid, haccepted hvalid⟩

/-- A name with a quote, a backslash and characters that are controls, or beyond sixteen bits. -/
private def oddlyNamed : Config :=
  { default with threadName := "\"\\\x01\n é😀", maxWorkerThreads := 0xFFFFFFFFFFFFFFFF, maxPublishDepth := none }

theorem oddlyNamed_round_trip : ofJson oddlyNamed.toJson = .ok oddlyNamed ∧
    ofJson { oddlyNamed with workerThreads := some 0 }.toJson = .error (.invalid "worker_threads" "0") :=
  ⟨(document_round_trip oddlyNamed).1 rfl, (document_round_trip { oddlyNamed with workerThreads := some 0 }).2.1 _ rfl⟩

end Config
end PubSub
