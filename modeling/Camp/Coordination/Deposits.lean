import Camp.Coordination.Promises

/-!
# A stored generation is real

Over every interleaving of any number of calls, whatever becomes of their
operations: when a publication succeeds the store holds the archive that the
metadata names and the sidecar, and it is never the sidecar that comes first.
-/

namespace Camp.Coordination

open Wire Wire.Utf8 Program Program.Objects Program.Machine

variable {S : ObjectStore} {o : Bucket}
variable {metadata : GenerationMetadata}

/-- No other text with the size and the digest of the sidecar was stored under its key. -/
def NoCollision (o : Bucket) (metadata : GenerationMetadata) : Prop :=
  ∀ stored ∈ (o metadata.metadataKey).written, ∀ body, marshal (markVerified metadata) = some body →
    describe stored = describe body → stored = body

theorem eq_of_markVerified {a b : GenerationMetadata} (h : markVerified a = markVerified b)
    (hVerified : a.verified = b.verified) : a = b := by
  cases a
  cases b
  cases hVerified
  simpa [markVerified] using h

theorem canon_markVerified : canon (markVerified metadata) = markVerified metadata ↔ canon metadata = metadata := by
  have hCanon : canon (markVerified metadata) = markVerified (canon metadata) := rfl
  constructor
  · intro h
    exact eq_of_markVerified (hCanon.symm.trans h) rfl
  · intro h
    rw [hCanon, h]

theorem SidecarStored.decodes (h : SidecarStored o metadata) (hApart : NoCollision o metadata) :
    (∃ text, (o metadata.metadataKey).current = some text ∧
      unmarshal text = some (markVerified metadata)) ↔ canon metadata = metadata := by
  obtain ⟨body, text, hBody, hText, hSame⟩ := h
  have hWritten : text ∈ (o metadata.metadataKey).written := by
    simp [Shelf.written, hText]
  cases hApart text hWritten body hBody hSame
  have hRead : unmarshal body = some (canon (markVerified metadata)) := unmarshal_marshal hBody
  rw [← canon_markVerified]
  constructor
  · rintro ⟨text', hText', hDecodes⟩
    cases hText.symm.trans hText'
    exact Option.some.inj (hRead.symm.trans hDecodes)
  · intro hCanon
    exact ⟨body, hText, hRead.trans (congrArg some hCanon)⟩

theorem Deposits.ordered {earlier : List StoreDeed} {d : StoreDeed} (h : Deposits S metadata earlier d)
    (hChanged : d.after metadata.metadataKey ≠ d.before metadata.metadataKey) :
    (∃ v ∈ earlier, Verifies metadata v) ∧ (Honest S → ArchiveStored d.before metadata) := by
  cases h with
  | idle => exact absurd rfl hChanged
  | archive hValid hNew =>
    obtain ⟨hObject, hMetadata, -⟩ := keys_of_validateGenerationMetadata hValid
    exact absurd (Function.update_of_ne (objectKey_ne_metadataKey hObject hMetadata).symm _ _) hChanged
  | sidecar hValid hNew hVerified hStored => exact ⟨hVerified, hStored⟩

/-- Whenever a publication changes its sidecar, one of its earlier operations has found
the archive, and the archive is there. When it has returned, the store holds the
archive with the size and digest of the metadata that it returns, with both flags set;
and the sidecar reads back as that metadata if and only if JSON keeps the metadata
as it is. -/
theorem stored_generation {ι : Type} [DecidableEq ι] {P : Clients ι} (hHonest : Honest S) (hRun : P.Run S o) {i : ι}
    {thread : Thread RemoteSignature Bucket Call (Except Error Result)} {source : Option Bytes}
    (hThread : P.thread i = some thread) (hCall : thread.call = .putAndVerify metadata source)
    (hApart : NoCollision P.world metadata) :
    (∀ earlier d later, thread.deeds = earlier ++ d :: later →
      d.after metadata.metadataKey ≠ d.before metadata.metadataKey →
      (∃ v ∈ earlier, Verifies metadata v) ∧ ArchiveStored d.before metadata) ∧
    ∀ record, P.result i = some (.ok (.generation record)) →
      record.metadata = { metadata with verified := ⟨true, true⟩ } ∧
      (∃ body, (P.world record.metadata.objectKey).current = some body ∧
        Int64.ofNat body.length = record.metadata.size ∧
        sha256Hex body = record.metadata.generation.archiveSHA256) ∧
      ((∃ text, (P.world record.metadata.metadataKey).current = some text ∧
        unmarshal text = some record.metadata) ↔ canon metadata = metadata) := by
  constructor
  · intro earlier d later hDeeds hChanged
    have hGuar := ((discipline S).kept_of_run hRun).2 i thread hThread |>.deeds earlier d later hDeeds
    rw [hCall] at hGuar
    obtain ⟨hVerified, hStored⟩ := Deposits.ordered hGuar hChanged
    exact ⟨hVerified, hStored hHonest⟩
  · intro record hResult
    have hDeposited := ((discipline S).post_of_run hRun hThread
      (Pool.rest_of_result hThread hResult)).generation metadata source record hCall rfl
    obtain ⟨body, hBody, hNamed⟩ := hDeposited.archive hHonest
    obtain ⟨hSize, hDigest⟩ := ObjectMeta.mk.inj hNamed
    have hReturned := hDeposited.returned
    have hFlags : markVerified metadata = { metadata with verified := ⟨true, true⟩ } := by
      rw [markVerified, hDeposited.loadable]
    refine ⟨hReturned.trans hFlags, ?_, ?_⟩
    · rw [hReturned]
      exact ⟨body, hBody, hSize, hDigest⟩
    · rw [hReturned]
      exact (hDeposited.sidecar hHonest).decodes hApart

section Sample

/-- A store that names versions by tallies and reports digests. -/
def honestStore : ObjectStore where
  label _ n := List.replicate (n + 1) 49
  label_injective _ _ _ h := by simpa using congrArg List.length h
  digest := describe
  report detail body := ⟨.ofNat body.length, if detail then sha256Hex body else []⟩
  plain := false
  reportsMissing := false
  looksFirst := false

theorem honest_honestStore : Honest honestStore := ⟨fun _ => rfl, fun _ _ => rfl⟩

def sampleArchive : Bytes := lit "archive"

def sampleMetadata (session : Bytes) : GenerationMetadata where
  schemaVersion := 1
  capsule := lit "c"
  lineage := ⟨lit "main"⟩
  generation := ⟨1, sha256Hex sampleArchive⟩
  parent := none
  objectKey := lit "c/generations/1-" ++ sha256Hex sampleArchive ++ lit ".tar.zst"
  metadataKey := lit "c/generations/1-" ++ sha256Hex sampleArchive ++ lit ".json"
  size := 7
  createdAt := ⟨1000000000, 0⟩
  tools := ⟨lit "d", lit "h"⟩
  sessionID := session
  verified := ⟨true, false⟩

/-- The outcome of the archive's write gets lost, the archive is then looked for, and
the sidecar is written. -/
def samplePublication (session : Bytes) : Clients (Fin 1) :=
  Pool.exec (storeMachine honestStore) Call.program
    [.begin 0 (.putAndVerify (sampleMetadata session) (some sampleArchive)), .act 0 (.loses true),
      .act 0 (.answers true), .act 0 (.answers true)]
    (Pool.start fun _ => Shelf.empty)

def sampleText (session : Bytes) : Bytes := (marshal (markVerified (sampleMetadata session))).getD []

def sampleRecord (session : Bytes) : GenerationRecord where
  metadata := markVerified (sampleMetadata session)
  archive := (describe sampleArchive, [49])
  sidecar := (describe (sampleText session), [49])

theorem stored_generation_sample :
    (samplePublication (lit "s")).result 0 = some (.ok (.generation (sampleRecord (lit "s")))) ∧
    (∃ body, ((samplePublication (lit "s")).world (sampleRecord (lit "s")).metadata.objectKey).current =
        some body ∧
      Int64.ofNat body.length = (sampleRecord (lit "s")).metadata.size ∧
      sha256Hex body = (sampleRecord (lit "s")).metadata.generation.archiveSHA256) ∧
    ∃ stored, ((samplePublication (lit "s")).world (sampleRecord (lit "s")).metadata.metadataKey).current =
        some stored ∧
      unmarshal stored = some (sampleRecord (lit "s")).metadata := by
  have hRun : (samplePublication (lit "s")).Run honestStore fun _ => Shelf.empty := Pool.run_exec ..
  have hEnd : (samplePublication (lit "s")).result 0 = some (.ok (.generation (sampleRecord (lit "s")))) ∧
      ((samplePublication (lit "s")).thread 0).map (·.call) =
        some (.putAndVerify (sampleMetadata (lit "s")) (some sampleArchive)) ∧
      ((samplePublication (lit "s")).world (sampleMetadata (lit "s")).metadataKey).written =
        (marshal (markVerified (sampleMetadata (lit "s")))).toList := by decide +kernel
  obtain ⟨hResult, hCalls, hWritten⟩ := hEnd
  obtain ⟨thread, hThread, hCall⟩ := Option.map_eq_some_iff.mp hCalls
  have hApart : NoCollision (samplePublication (lit "s")).world (sampleMetadata (lit "s")) := by
    intro stored hStored body hBody _
    rw [hWritten, hBody] at hStored
    exact List.mem_singleton.mp hStored
  obtain ⟨-, hSuccess⟩ := stored_generation honest_honestStore hRun hThread hCall hApart
  obtain ⟨-, hArchive, hSidecar⟩ := hSuccess _ hResult
  have hKept : canon (sampleMetadata (lit "s")) = sampleMetadata (lit "s") := by decide +kernel
  exact ⟨hResult, hArchive, hSidecar.mpr hKept⟩

/-- A session whose name is no text: the publication succeeds, and the sidecar names
another session. -/
theorem sidecar_names_another_session : let P := samplePublication [0xFF]
    let metadata := (sampleRecord [0xFF]).metadata
    P.result 0 = some (.ok (.generation (sampleRecord [0xFF]))) ∧
    ∃ stored, (P.world metadata.metadataKey).current = some stored ∧
      unmarshal stored ≠ some metadata := by
  have hEnd : (samplePublication [0xFF]).result 0 = some (.ok (.generation (sampleRecord [0xFF]))) ∧
      ((samplePublication [0xFF]).world (sampleRecord [0xFF]).metadata.metadataKey).current =
        some (sampleText [0xFF]) ∧
      unmarshal (sampleText [0xFF]) ≠ some (sampleRecord [0xFF]).metadata := by decide +kernel
  exact ⟨hEnd.1, sampleText [0xFF], hEnd.2⟩

end Sample

end Camp.Coordination
