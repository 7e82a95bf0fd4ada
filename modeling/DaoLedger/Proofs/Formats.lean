import DaoLedger.Governance.VoteFile
import DaoLedger.Node.Replay
import DaoLedger.Proofs.Spelling
import DaoLedger.Proofs.Stored
import DaoLedger.Proofs.StoredVotes
/-!
JSON forms that are read back. Main statement: chain feeds and the voter's own votes are read from
the text that was written for them, just as they were.
-/
namespace DaoLedger

class JsonFormat.Reversible (α : Type) [JsonFormat α] : Prop where
  clean (a : α) : (toJson a).Clean
  ofJson?_toJson (a : α) : ofJson? (toJson a) = some a
  /-- A field that may be left out is told from one that is. -/
  toJson_ne_null (a : α) : toJson a ≠ .null

export JsonFormat.Reversible (clean ofJson?_toJson toJson_ne_null)

open Json JsonFormat

section
variable {α : Type} [JsonFormat α]

/-! ### Numbers, texts and lists -/

theorem JsonFormat.Reversible.ofNat (bound : Nat) (ofNat : Nat → α) (toNat : α → Nat)
    (hlt : ∀ a, toNat a < bound) (hof : ∀ a, ofNat (toNat a) = a)
    (hwrite : ∀ a : α, toJson a = .ofNat (toNat a))
    (hread : ∀ v, (ofJson? v : Option α) = (natBelow? bound v).map ofNat) : Reversible α where
  clean a := hwrite a ▸ .natural (toNat a)
  ofJson?_toJson a := by
    have hnat : nat? (.ofNat (toNat a)) = some (toNat a) := by
      rw [Json.ofNat, nat?, String.toList_ofList, Text.ofDecimal?_decimal]
    rw [hwrite, hread, natBelow?, hnat, Option.bind_some, if_pos (hlt a), Option.map_some, hof]
  toJson_ne_null a h := by
    rw [hwrite] at h
    cases h

instance : Reversible UInt8 :=
  .ofNat UInt8.size UInt8.ofNat UInt8.toNat UInt8.toNat_lt (fun _ => UInt8.ofNat_toNat)
    (fun _ => rfl) fun _ => rfl

instance : Reversible UInt32 :=
  .ofNat UInt32.size UInt32.ofNat UInt32.toNat UInt32.toNat_lt (fun _ => UInt32.ofNat_toNat)
    (fun _ => rfl) fun _ => rfl

instance : Reversible UInt64 :=
  .ofNat UInt64.size UInt64.ofNat UInt64.toNat UInt64.toNat_lt (fun _ => UInt64.ofNat_toNat)
    (fun _ => rfl) fun _ => rfl

instance : Reversible String := ⟨.text, fun _ => rfl, nofun⟩

instance : Reversible TxId := ⟨fun id => .text id.text, fun _ => rfl, nofun⟩

instance : Reversible BlockHash := ⟨fun hash => .text hash.text, fun _ => rfl, nofun⟩

theorem readAll?_map_toJson [Reversible α] (xs : List α) :
    readAll? ofJson? (xs.map toJson) = some xs := by
  induction xs with
  | nil => rfl
  | cons x xs ih => simp [readAll?, ofJson?_toJson, ih]

instance [Reversible α] : Reversible (List α) where
  clean xs := .array (by simp [clean])
  ofJson?_toJson := readAll?_map_toJson
  toJson_ne_null _ := nofun

instance {n : Nat} : Reversible (Vector UInt8 n) where
  clean v := clean v.toList
  ofJson?_toJson v :=
    Option.bind_eq_some_iff.2 ⟨v.toList, ofJson?_toJson v.toList, by simp [Vector.toList]⟩
  toJson_ne_null v := toJson_ne_null v.toList

/-! ### Records -/

theorem needed?_toJson [Reversible α] (a : α) : needed? (some (toJson a)) = some a :=
  ofJson?_toJson a

theorem optional?_toJson [Reversible α] (a : Option α) : optional? (some (toJson a)) = some a := by
  cases a with
  | none => rfl
  | some a =>
    have hne : toJson a ≠ .null := toJson_ne_null a
    have hsome : toJson (some a) = toJson a := rfl
    rw [hsome]
    simp [optional?, ofJson?_toJson]

theorem clean_option [Reversible α] (a : Option α) : (toJson a).Clean := by
  cases a with
  | none => exact .null
  | some a => exact clean a

theorem Json.valuesOf_eq {fields : List (String × Json)} (hn : (fields.map (·.1)).Nodup)
    {f : String × Json} (hf : f ∈ fields) : valuesOf f.1 fields = [f.2] := by
  have hfilter := filter_eq_singleton_of_nodup hn hf
  have hvalues : valuesOf f.1 fields = (fields.filter (·.1 = f.1)).map (·.2) := rfl
  rw [hvalues, hfilter]
  rfl

theorem Json.record?_object {names : List String} {fields : List (String × Json)}
    (hnames : fields.map (·.1) = names) (hn : names.Nodup) :
    record? names (.object fields) = some (fields.map fun f => some f.2) := by
  subst hnames
  have hpart {part : List (String × Json)} (hp : part ⊆ fields) :
      fieldsOf? fields (part.map (·.1)) = some (part.map fun f => some f.2) := by
    induction part with
    | nil => rfl
    | cons f part ih =>
      obtain ⟨hf, hpart⟩ := List.cons_subset.1 hp
      simp [fieldsOf?, fieldOf?, valuesOf_eq hn hf, ih hpart]
  exact hpart (List.Subset.refl fields)

end

theorem Json.bind_record? {α : Type} {names : List String} {fields : List (String × Json)}
    {content : List (Option Json) → Option α} {a : α} (hnames : fields.map (·.1) = names)
    (hn : names.Nodup) (hc : content (fields.map fun f => some f.2) = some a) :
    (record? names (.object fields)).bind content = some a := by
  rw [record?_object hnames hn, Option.bind_some, hc]

instance : Reversible LockingScript where
  clean s := .object (by simp [clean])
  ofJson?_toJson s := bind_record? rfl (by decide) (by simp [needed?_toJson])
  toJson_ne_null _ := nofun

instance : Reversible Input where
  clean i := .object (by simp [clean, clean_option])
  ofJson?_toJson i := bind_record? rfl (by decide) (by simp [needed?_toJson, optional?_toJson])
  toJson_ne_null _ := nofun

instance : Reversible RawOutput where
  clean o := .object (by simp [clean, clean_option])
  ofJson?_toJson o := bind_record? rfl (by decide) (by simp [needed?_toJson, optional?_toJson])
  toJson_ne_null _ := nofun

instance : Reversible RawTx where
  clean tx := .object (by simp [clean])
  ofJson?_toJson tx := bind_record? rfl (by decide) (by simp [needed?_toJson])
  toJson_ne_null _ := nofun

instance : Reversible RawBlock where
  clean b := .object (by simp [clean])
  ofJson?_toJson b := bind_record? rfl (by decide) (by simp [needed?_toJson])
  toJson_ne_null _ := nofun

/-! ### Cases -/

theorem JsonFormat.Reversible.ofNames {α : Type} [JsonFormat α] (all : List α) (name : α → String)
    (hmem : ∀ a, a ∈ all) (hn : (all.map name).Nodup)
    (hwrite : ∀ a : α, toJson a = .ofText (name a))
    (hread : ∀ v, (ofJson? v : Option α) = plainCase? all name v) : Reversible α where
  clean a := hwrite a ▸ .text (name a)
  ofJson?_toJson a := by
    have hfind : all.find? (name · = name a) = some a :=
      (find?_eq_some_of_nodup hn).2 ⟨hmem a, rfl⟩
    rw [hwrite, hread]
    exact hfind
  toJson_ne_null a h := by
    rw [hwrite] at h
    cases h

instance : Reversible Vote :=
  .ofNames Vote.all Vote.name (fun v => by cases v <;> decide) (by decide) (fun _ => rfl)
    fun _ => rfl

instance : Reversible Param :=
  .ofNames Param.all Param.label (fun p => by cases p <;> decide) (by decide) (fun _ => rfl)
    fun _ => rfl

theorem Json.clean_oneCase {content : Json} (h : content.Clean) (name : String) :
    (oneCase name content).Clean := .object (by simpa using h)

theorem ofJson?_compensationRequest (content : Json) :
    (ofJson? (oneCase "CompensationRequest" content) : Option ProposalKind) = do
      let [requested, address] ← record? ["requested_bsq", "bsq_address"] content | none
      return .compensationRequest (← needed? requested) (← needed? address) := rfl

theorem ofJson?_changeParam (content : Json) :
    (ofJson? (oneCase "ChangeParam" content) : Option ProposalKind) = do
      let [param, value] ← record? ["param", "value"] content | none
      return .changeParam (← needed? param) (← needed? value) := rfl

instance : Reversible ProposalKind where
  clean
    | .generic => .text "Generic"
    | .compensationRequest _ _ => clean_oneCase (.object (by simp [clean])) "CompensationRequest"
    | .changeParam _ _ => clean_oneCase (.object (by simp [clean])) "ChangeParam"
  ofJson?_toJson
    | .generic => rfl
    | .compensationRequest _ _ => (ofJson?_compensationRequest _).trans
      (bind_record? rfl (by decide) (by simp [needed?_toJson]))
    | .changeParam _ _ => (ofJson?_changeParam _).trans
      (bind_record? rfl (by decide) (by simp [needed?_toJson]))
  toJson_ne_null kind := by cases kind <;> nofun

instance : Reversible Proposal where
  clean p := .object (by simp [clean, clean_option])
  ofJson?_toJson p := bind_record? rfl (by decide) (by simp [needed?_toJson, optional?_toJson])
  toJson_ne_null _ := nofun

instance : Reversible Ballot where
  clean b := .object (by simp [clean, clean_option])
  ofJson?_toJson b := bind_record? rfl (by decide) (by simp [needed?_toJson, optional?_toJson])
  toJson_ne_null _ := nofun

instance : Reversible BlindVote where
  clean b := .object (by simp [clean, clean_option])
  ofJson?_toJson b := bind_record? rfl (by decide) (by simp [needed?_toJson, optional?_toJson])
  toJson_ne_null _ := nofun

instance : Reversible OwnVote where
  clean v := .object (by simp [clean, clean_option])
  ofJson?_toJson v := bind_record? rfl (by decide) (by simp [needed?_toJson, optional?_toJson])
  toJson_ne_null _ := nofun

/-! ### Files -/

theorem bind_read?_pretty {α : Type} [JsonFormat α] [Reversible α] (a : α) :
    (read? (toJson a).pretty).bind ofJson? = some a := by
  rw [read?_pretty (clean a), Option.bind_some, ofJson?_toJson]

theorem VoteFile.load_write (f : VoteFile) (votes : List OwnVote) :
    VoteFile.load { f with found := .file (write votes) } = .ok votes := by
  simp only [VoteFile.load, VoteFile.write, bind_read?_pretty]

theorem VoteFile.save_cases (f : VoteFile) (votes : List OwnVote) :
    f.save votes = .ok { f with found := .file (write votes) } ∨ ∃ e, f.save votes = .error e := by
  unfold VoteFile.save
  cases f.found with
  | missing | file text => exact .inl rfl
  | directory | underFile | blocked => exact .inr ⟨_, rfl⟩

theorem VoteStorage.whole_voteFile : Whole VoteFile where
  stored f f' votes h := by
    rcases f.save_cases votes with hs | ⟨e, hs⟩
    · simp only [VoteStorage.save, hs, Prod.mk.injEq, and_true] at h
      exact h ▸ f.load_write votes
    · simp [VoteStorage.save, hs] at h
  refused f f' votes e h := by
    rcases f.save_cases votes with hs | ⟨e', hs⟩
    · simp [VoteStorage.save, hs] at h
    · simp only [VoteStorage.save, hs, Prod.mk.injEq] at h
      rw [h.1]

/-- A chain feed is read as it was written, and so are the votes in a file, which can be written
where no file stands yet and over any other. -/
theorem files_read_back :
    (∀ raws : List RawBlock, Replay.read (Replay.write raws) = .ok raws) ∧
      VoteStorage.Whole VoteFile ∧
        ∀ (path folder : String) (votes : List OwnVote),
          ((VoteFile.mk path folder .missing).save votes >>= VoteFile.load) = .ok votes ∧
            ∀ text, ((VoteFile.mk path folder (.file text)).save votes >>= VoteFile.load) =
              .ok votes := by
  refine ⟨fun raws => ?_, VoteStorage.whole_voteFile, fun path folder votes => ⟨?_, fun text => ?_⟩⟩
  · rw [Replay.read, Replay.write, bind_read?_pretty]
  · exact (VoteFile.mk path folder .missing).load_write votes
  · exact (VoteFile.mk path folder (.file text)).load_write votes

end DaoLedger
