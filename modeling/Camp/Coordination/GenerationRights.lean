import Camp.Coordination.Generations
import Camp.Coordination.Clients

/-!
# What a publication may do

A publication writes its archive where there is none, and its sidecar where there
is none and only once the store was found to hold the archive. Nobody changes an
archive or a sidecar that is there.
-/

namespace Camp.Coordination

open Wire Wire.Utf8 Program Program.Objects Program.Machine List Function

section Keys

def GenerationKey (key : Bytes) : Prop :=
  ∃ capsule lineage g, generationObjectKey capsule lineage g = .ok key ∨
    generationMetadataKey capsule lineage g = .ok key

variable {capsule key : Bytes} {lineage : Lineage} {g : GenerationRef}

theorem objectKey_ends (h : generationObjectKey capsule lineage g = .ok key) :
    ∃ stem, key = stem ++ lit ".tar.zst" := by
  unfold generationObjectKey at h
  obtain ⟨_, -, h⟩ := Checks.bind_eq_ok.mp h
  obtain ⟨_, -, h⟩ := Checks.bind_eq_ok.mp h
  cases h
  exact ⟨_, rfl⟩

theorem metadataKey_ends (h : generationMetadataKey capsule lineage g = .ok key) :
    ∃ stem c, isHex c ∧ key = stem ++ [c] ++ lit ".json" := by
  unfold generationMetadataKey at h
  obtain ⟨root, -, h⟩ := Checks.bind_eq_ok.mp h
  obtain ⟨_, hRef, h⟩ := Checks.bind_eq_ok.mp h
  obtain ⟨hLength, hHex⟩ := hex_of_validateGenerationRef hRef
  cases h
  have hDigest : g.archiveSHA256 ≠ [] := by
    intro hNil
    rw [hNil] at hLength
    cases hLength
  refine ⟨root ++ (decimal g.generation.toNat ++ lit "-" ++ g.archiveSHA256.dropLast),
    g.archiveSHA256.getLast hDigest, hHex _ (getLast_mem hDigest), ?_⟩
  conv_lhs => rw [generationName, ← dropLast_concat_getLast hDigest]
  simp only [append_assoc]

theorem not_generationKey {file : String} {stem : Bytes} {c : UInt8}
    (hFile : lit file = stem ++ [c] ++ lit ".json") (hc : isHex c = false)
    (h : Lineage.key file lineage capsule = .ok key) : ¬GenerationKey key := by
  obtain ⟨-, -, rfl⟩ := Lineage.key_eq_ok.mp h
  rw [hFile]
  rintro ⟨capsule', lineage', g, hKey | hKey⟩
  · obtain ⟨stem', hEnds⟩ := objectKey_ends hKey
    have hLast := congrArg List.getLast? hEnds
    rw [← append_assoc, List.getLast?_append, List.getLast?_append] at hLast
    exact absurd hLast (by simp [lit, encode, encodeNat])
  · obtain ⟨stem', c', hc', hEnds⟩ := metadataKey_ends hKey
    rw [← append_assoc, ← append_assoc] at hEnds
    have hLast := (append_inj' (append_inj' hEnds rfl).1 rfl).2
    cases hLast
    rw [hc] at hc'
    cases hc'

theorem not_generationKey_pointer (h : lineage.pointerKey capsule = .ok key) :
    ¬GenerationKey key :=
  not_generationKey (show lit "latest.json" = lit "lates" ++ [116] ++ lit ".json" by decide) rfl h

theorem not_generationKey_lease (h : lineage.leaseKey capsule = .ok key) : ¬GenerationKey key :=
  not_generationKey
    (show lit "leases/writer.json" = lit "leases/write" ++ [114] ++ lit ".json" by decide) rfl h

theorem objectKey_ne_metadataKey {capsule' key' : Bytes} {lineage' : Lineage} {g' : GenerationRef}
    (h : generationObjectKey capsule lineage g = .ok key)
    (h' : generationMetadataKey capsule' lineage' g' = .ok key') : key ≠ key' := by
  obtain ⟨stem, rfl⟩ := objectKey_ends h
  obtain ⟨stem', c, -, rfl⟩ := metadataKey_ends h'
  intro hSame
  have hLast := congrArg List.getLast? hSame
  rw [List.getLast?_append, List.getLast?_append] at hLast
  exact absurd hLast (by simp [lit, encode, encodeNat])

end Keys

section Rely

/-- Archives and sidecars stay as they are once they are there. -/
def Permanent (o o' : Bucket) : Prop :=
  ∀ key, GenerationKey key → ∀ body, (o key).current = some body → (o' key).current = some body

structure Rely (o o' : Bucket) : Prop where
  grows : Grows o o'
  permanent : Permanent o o'

variable {o o' o'' : Bucket} {key : Bytes}

theorem Rely.refl (o : Bucket) : Rely o o := ⟨Grows.refl o, fun _ _ _ h => h⟩

theorem Rely.trans (h : Rely o o') (h' : Rely o' o'') : Rely o o'' :=
  ⟨h.grows.trans h'.grows, fun key hKey body hBody =>
    h'.permanent key hKey body (h.permanent key hKey body hBody)⟩

theorem permanent_update {shelf : Objects.Shelf Bytes} (h : GenerationKey key → (o key).current = none) :
    Permanent o (update o key shelf) := by
  intro key' hKey body hBody
  by_cases hSame : key' = key
  · subst hSame
    rw [h hKey] at hBody
    cases hBody
  · rwa [update_of_ne hSame]

theorem rely_put_new {body : Bytes} (h : (o key).current = none) : Rely o (put o key body) :=
  ⟨grows_put o key body, permanent_update fun _ => h⟩

end Rely

/-- What the store says of an object is true. It may leave out the digest. -/
structure Honest (S : ObjectStore) : Prop where
  digest : ∀ body, S.digest body = describe body
  report : ∀ detail body,
    S.report detail body = ⟨.ofNat body.length, if detail then sha256Hex body else []⟩

def ArchiveStored (o : Bucket) (metadata : GenerationMetadata) : Prop :=
  ∃ body, (o metadata.objectKey).current = some body ∧ describe body = namedBy metadata

/-- An object with the size and the digest of the sidecar is in the store. -/
def SidecarStored (o : Bucket) (metadata : GenerationMetadata) : Prop :=
  ∃ body text, marshal (markVerified metadata) = some body ∧
    (o metadata.metadataKey).current = some text ∧ describe text = describe body

def Reported (key : Bytes) (object : ObjectMeta × Bytes) (d : StoreDeed) : Prop :=
  (∃ source expected o o', d = ⟨.putImmutable key source expected, some (.ok object), o, o'⟩) ∨
    ∃ o, d = ⟨.head key, some (.ok object), o, o⟩

/-- The operation found the archive in the store: the store reported its size and
digest, or it was read back and has them. -/
def Verifies (metadata : GenerationMetadata) (d : StoreDeed) : Prop :=
  (∃ revision, Reported metadata.objectKey (namedBy metadata, revision) d) ∨
    ∃ body revision o, d = ⟨.get metadata.objectKey, some (.ok (body, revision)), o, o⟩ ∧
      describe body = namedBy metadata

/-- What a publication may do after its earlier operations. -/
inductive Deposits (S : ObjectStore) (metadata : GenerationMetadata) : List StoreDeed → StoreDeed → Prop
  | idle (earlier : List StoreDeed) (op : RemoteSignature.Op)
      (answer : Option (RemoteSignature.Answer op)) (o : Bucket) :
      Deposits S metadata earlier ⟨op, answer, o, o⟩
  | archive {earlier : List StoreDeed} {op : RemoteSignature.Op}
      {answer : Option (RemoteSignature.Answer op)} {o : Bucket} {body : Bytes}
      (hValid : validateGenerationMetadata metadata metadata.capsule metadata.lineage
        metadata.generation = .ok ())
      (hNew : (o metadata.objectKey).current = none) :
      Deposits S metadata earlier ⟨op, answer, o, put o metadata.objectKey body⟩
  | sidecar {earlier : List StoreDeed} {op : RemoteSignature.Op}
      {answer : Option (RemoteSignature.Answer op)} {o : Bucket} {body : Bytes}
      (hValid : validateGenerationMetadata metadata metadata.capsule metadata.lineage
        metadata.generation = .ok ())
      (hNew : (o metadata.metadataKey).current = none)
      (hVerified : ∃ d ∈ earlier, Verifies metadata d)
      (hStored : Honest S → ArchiveStored o metadata) :
      Deposits S metadata earlier ⟨op, answer, o, put o metadata.metadataKey body⟩

/-- What a publication has achieved when it returns a record. -/
structure Deposited (S : ObjectStore) (metadata : GenerationMetadata) (record : GenerationRecord)
    (o : Bucket) : Prop where
  valid : validateGenerationMetadata metadata metadata.capsule metadata.lineage
    metadata.generation = .ok ()
  loadable : metadata.verified.localHaulLoadable = true
  returned : record.metadata = markVerified metadata
  archive : Honest S → ArchiveStored o metadata
  sidecar : Honest S → SidecarStored o metadata

section Stable

variable {S : ObjectStore} {metadata : GenerationMetadata} {o o' : Bucket}
variable {capsule : Bytes} {lineage : Lineage} {g : GenerationRef}
variable {earlier : List StoreDeed} {d : StoreDeed}

theorem keys_of_validateGenerationMetadata (h : validateGenerationMetadata metadata capsule lineage g = .ok ()) :
    generationObjectKey capsule lineage g = .ok metadata.objectKey ∧
      generationMetadataKey capsule lineage g = .ok metadata.metadataKey ∧
      validateGenerationRef metadata.generation = .ok () := by
  unfold validateGenerationMetadata at h
  by_cases hIdentity : (metadata.schemaVersion ≠ schemaVersion || metadata.capsule ≠ capsule ||
      metadata.lineage ≠ lineage || metadata.generation ≠ g) = true
  · simp only [hIdentity, if_true] at h
    cases h
  · simp only [hIdentity] at h
    obtain ⟨_, hRef, h⟩ := Checks.bind_eq_ok.mp h
    obtain ⟨_, -, h⟩ := Checks.bind_eq_ok.mp h
    obtain ⟨wantObject, hObject, h⟩ := Checks.bind_eq_ok.mp h
    obtain ⟨wantMetadata, hMetadata, h⟩ := Checks.bind_eq_ok.mp h
    by_cases hFields : (metadata.objectKey ≠ wantObject || metadata.metadataKey ≠ wantMetadata ||
        metadata.size < 0 || metadata.createdAt.isZero || metadata.sessionID.isEmpty) = true
    · simp only [hFields, if_true] at h
      cases h
    · simp only [Bool.or_eq_true, decide_eq_true_eq, not_or, not_not] at hFields
      rw [hFields.1.1.1.1, hFields.1.1.1.2]
      exact ⟨hObject, hMetadata, hRef⟩

theorem ArchiveStored.rely (h : ArchiveStored o metadata)
    (hKey : generationObjectKey capsule lineage g = .ok metadata.objectKey) (hRely : Rely o o') :
    ArchiveStored o' metadata := by
  obtain ⟨body, hBody, hNamed⟩ := h
  exact ⟨body, hRely.permanent _ ⟨capsule, lineage, g, .inl hKey⟩ body hBody, hNamed⟩

theorem SidecarStored.rely (h : SidecarStored o metadata)
    (hKey : generationMetadataKey capsule lineage g = .ok metadata.metadataKey) (hRely : Rely o o') :
    SidecarStored o' metadata := by
  obtain ⟨body, text, hBody, hText, hSame⟩ := h
  exact ⟨body, text, hBody, hRely.permanent _ ⟨capsule, lineage, g, .inr hKey⟩ text hText, hSame⟩

theorem Deposited.rely {record : GenerationRecord} (h : Deposited S metadata record o)
    (hRely : Rely o o') : Deposited S metadata record o' := by
  obtain ⟨hObject, hMetadata, -⟩ := keys_of_validateGenerationMetadata h.valid
  exact ⟨h.valid, h.loadable, h.returned, fun hHonest => (h.archive hHonest).rely hObject hRely,
    fun hHonest => (h.sidecar hHonest).rely hMetadata hRely⟩

theorem Deposits.relied (h : Deposits S metadata earlier d) : Rely d.before d.after := by
  cases h with
  | idle => exact Rely.refl _
  | archive hValid hNew => exact rely_put_new hNew
  | sidecar hValid hNew hVerified hStored => exact rely_put_new hNew

theorem Deposits.elsewhere {key : Bytes} (h : Deposits S metadata earlier d) (hKey : ¬GenerationKey key) :
    d.after key = d.before key := by
  cases h with
  | idle => rfl
  | archive hValid hNew =>
    apply update_of_ne
    rintro rfl
    exact hKey ⟨_, _, _, .inl (keys_of_validateGenerationMetadata hValid).1⟩
  | sidecar hValid hNew hVerified hStored =>
    apply update_of_ne
    rintro rfl
    exact hKey ⟨_, _, _, .inr (keys_of_validateGenerationMetadata hValid).2.1⟩

end Stable

section Acts

variable {S : ObjectStore} {metadata : GenerationMetadata} {deeds : List StoreDeed} {o : Bucket}
  {guar : List StoreDeed → StoreDeed → Prop}
variable {key : Bytes} {expected : ObjectMeta} {post : StorePost (ObjectMeta × Bytes)}

/-- The store is asked again when the outcome of the write got lost. -/
theorem acts_headAgain {e : Error} (hExpected : expected.sha256 ≠ []) (hIdle : Idle guar)
    (hError : ∀ deeds e o₁, post deeds (.error e) o₁)
    (hOk : ∀ d o₁ object body, Rely o o₁ → (o₁ key).current = some body →
      (Honest S → describe body = expected) → Reported key object d → post (deeds ++ [d]) (.ok object) o₁) :
    (storeMachine S).Acts Rely guar (do
      if e.is .ambiguous then
        match ← catching (ask plainly (.head key)) with
        | .ok reconciled => if reconciled.1 = expected then return reconciled
        | .error _ => pure ()
      throw e) post deeds o := by
  split_ifs with hLost
  · apply Acts.catching_bind
    apply Acts.head hIdle
    · intro o₁ e' _ _
      exact hError _ _ _
    · intro o₁ body revision detail hRely hStored
      dsimp only
      split_ifs with hFound
      · refine hOk _ o₁ _ body hRely hStored.1 (fun hHonest => ?_) (.inr ⟨o₁, rfl⟩)
        rw [hHonest.report] at hFound
        cases detail with
        | true => exact hFound
        | false => exact absurd (congrArg ObjectMeta.sha256 hFound).symm hExpected
      · exact hError _ _ _
  · exact hError _ _ _

theorem acts_putImmutable {source : Bytes} (hExpected : expected.sha256 ≠ []) (hIdle : Idle guar)
    (hError : ∀ deeds e o₁, post deeds (.error e) o₁)
    (hWrite : ∀ o₁ op answer, Rely o o₁ → (o₁ key).current = none → guar deeds ⟨op, answer, o₁, put o₁ key source⟩)
    (hOk : ∀ more o₁ object body, Rely o o₁ → (o₁ key).current = some body →
      (Honest S → describe body = expected) → (∃ d ∈ more, Reported key object d) →
      post (deeds ++ more) (.ok object) o₁) :
    (storeMachine S).Acts Rely guar (Generations.putImmutable key source expected) post deeds o := by
  have hLater (more : List StoreDeed) (o₁ : Bucket) (hRely : Rely o o₁) (d : StoreDeed) (o₂ : Bucket)
      (object : ObjectMeta × Bytes) (body : Bytes) (hRely₂ : Rely o₁ o₂) (hCurrent : (o₂ key).current = some body)
      (hSame : Honest S → describe body = expected) (hReported : Reported key object d) :
      post (deeds ++ more ++ [d]) (.ok object) o₂ := by
    rw [append_assoc]
    exact hOk _ o₂ _ body (hRely.trans hRely₂) hCurrent hSame
      ⟨_, mem_append_right _ (mem_singleton_self _), hReported⟩
  apply Acts.catching_bind
  apply Acts.putImmutable hIdle
  · intro o₁ e hRely
    exact acts_headAgain hExpected hIdle hError (hLater _ o₁ hRely)
  · intro o₁ body revision detail hRely hStored hDigest
    refine hOk _ o₁ _ body hRely hStored.1 (fun hHonest => (hHonest.digest body).symm.trans hDigest)
      ⟨_, mem_singleton_self _, .inl ⟨_, _, _, _, rfl⟩⟩
  · intro o₁ detail hRely hNew hDigest
    have hRely₂ := hRely.trans (@rely_put_new _ _ source hNew)
    refine ⟨fun told => hWrite o₁ _ told hRely hNew, ?_, acts_headAgain hExpected hIdle hError (hLater _ _ hRely₂)⟩
    refine hOk _ _ _ source hRely₂ ?_ (fun hHonest => (hHonest.digest source).symm.trans hDigest)
      ⟨_, mem_singleton_self _, .inl ⟨_, _, _, _, rfl⟩⟩
    rw [put, update_self, Shelf.current_put]

theorem acts_verifyArchive {archive : ObjectMeta × Bytes}
    {post : StorePost Unit} (hIdle : Idle guar)
    (hReported : ∃ d ∈ deeds, Reported metadata.objectKey archive d)
    (hError : ∀ deeds e o₁, post deeds (.error e) o₁)
    (hOk : ∀ more o₁, Rely o o₁ → (∃ d ∈ deeds ++ more, Verifies metadata d) →
      post (deeds ++ more) (.ok ()) o₁) :
    (storeMachine S).Acts Rely guar (Generations.verifyArchive metadata archive.1) post deeds o := by
  unfold Generations.verifyArchive
  split_ifs with hSize hDigest hSame
  · exact hError _ _ _
  · apply Acts.bind
    apply Acts.get hIdle
    · intro o₁ e _ _
      exact hError _ _ _
    · intro o₁ body revision hRely₁ _
      apply Acts.bind
      apply Acts.attempt hIdle
      rintro o₂ (_ | _) hRely₂
      · exact hError _ _ _
      · apply Acts.bind
        apply Acts.attempt hIdle
        rintro o₃ (_ | _) hRely₃
        · exact hError _ _ _
        · dsimp only [Except.mapError]
          split_ifs with hBody
          · exact hError _ _ _
          · rw [append_assoc, append_assoc]
            refine hOk _ o₃ ((hRely₁.trans hRely₂).trans hRely₃) ⟨_, mem_append_right _
              mem_cons_self, .inr ⟨body, revision, o₁, rfl, not_not.mp hBody⟩⟩
  · exact hError _ _ _
  · obtain ⟨object, revision⟩ := archive
    have hNamed : object = namedBy metadata := by
      obtain ⟨size, sha256⟩ := object
      exact congrArg₂ ObjectMeta.mk (not_not.mp hSize) (not_not.mp hSame)
    obtain ⟨d, hd, hReported⟩ := hReported
    rw [hNamed] at hReported
    have hVerifies : Verifies metadata d := .inl ⟨revision, hReported⟩
    have hPost := hOk [] o (Rely.refl o) ⟨d, mem_append_left _ hd, hVerifies⟩
    rwa [append_nil] at hPost

theorem idle_deposits : Idle (Deposits S metadata) := Deposits.idle

theorem acts_putAndVerify {source : Option Bytes} :
    (storeMachine S).Acts Rely (Deposits S metadata) (Generations.putAndVerify metadata source)
      (fun _ r o₁ => ∀ record, r = .ok record → Deposited S metadata record o₁) [] o := by
  unfold Generations.putAndVerify
  cases source with
  | none => exact nofun
  | some source =>
    apply Acts.bind
    rw [acts_lift]
    cases hValid : validateGenerationMetadata metadata metadata.capsule metadata.lineage
        metadata.generation with
    | error e => exact nofun
    | ok _ =>
      obtain ⟨hObject, hMetadata, hRef⟩ := keys_of_validateGenerationMetadata hValid
      dsimp only
      split_ifs with hLoadable
      · exact nofun
      · apply Acts.bind
        have hDigest : (namedBy metadata).sha256 ≠ [] := by
          intro hNil
          have hLength := (hex_of_validateGenerationRef hRef).1
          rw [show metadata.generation.archiveSHA256 = [] from hNil] at hLength
          cases hLength
        apply acts_putImmutable hDigest idle_deposits
        · exact nofun
        · intro o₁ op answer _ hNew
          exact .archive hValid hNew
        · intro more o₁ archive body hRely₁ hBody hNamed hReported
          have hStored₁ : Honest S → ArchiveStored o₁ metadata := fun h => ⟨body, hBody, hNamed h⟩
          apply Acts.bind
          apply acts_verifyArchive idle_deposits hReported
          · exact nofun
          · intro more' o₂ hRely₂ hVerified
            have hStored₂ : Honest S → ArchiveStored o₂ metadata :=
              fun h => (hStored₁ h).rely hObject hRely₂
            dsimp only
            split
            · exact nofun
            · rename_i text hText
              apply Acts.bind
              apply acts_putImmutable (sha256Hex_ne_nil text) idle_deposits
              · exact nofun
              · intro o₃ op answer hRely₃ hNew
                exact .sidecar hValid hNew hVerified fun h => (hStored₂ h).rely hObject hRely₃
              · intro more'' o₃ sidecar found hRely₃ hFound hSame _ record hRecord
                cases hRecord
                exact ⟨hValid, by simpa using hLoadable, rfl,
                  fun h => (hStored₂ h).rely hObject hRely₃,
                  fun h => ⟨text, found, hText, hFound, hSame h⟩⟩

end Acts

end Camp.Coordination
