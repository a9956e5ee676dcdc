import Camp.HaulKit.Canonical
import Camp.Wire.SliceSort
import Camp.Wire.Words

/-!
# The identity of a Hauler store

Hauler lists a store in whatever order it likes. The identity sorts the list by reference, type and
platform, with a sort that promises nothing for entries that agree in the three.
-/

namespace Camp.HaulKit

open Wire Wire.Utf8 Program Program.Checks Program.Paths Wire.Words List

section Model

structure GenerationInfoEntry where
  reference : Bytes
  type : Bytes
  platform : Bytes
  digest : Bytes
  size : Int64
  deriving DecidableEq

instance : Record GenerationInfoEntry where
  fields := (Fields.none GenerationInfoEntry.mk)
    |>.field "Reference" (·.reference)
    |>.field "Type" (·.type)
    |>.field "Platform" (·.platform)
    |>.field "Digest" (·.digest)
    |>.field "Size" (·.size)
  apart := by decide +kernel
  view_view _ := by simp

structure Result where
  exitCode : Int
  stdout : Bytes
  stderr : Bytes

/-- A client of a Hauler executable; how the executable is run is left open. -/
structure Client where
  version : Bytes
  run : List Bytes → Except Bytes Result

def Client.info (c : Client) (store : Bytes) : Except Bytes Result :=
  c.run [lit "store", lit "--store", store, lit "info", lit "--output", lit "json", lit "--digests"]

inductive StoreError where
  | message (text : String)
  | observeVersion (cause : Option Bytes)
  | version (observed : List (Option Char)) (locked : Bytes)
  | info (cause : Bytes)
  | exited (code : Int)
  | json
  deriving DecidableEq

/-- What the executable says of its version, both streams read as one text. -/
def observeVersion (c : Client) : Except StoreError Unit := do
  let result ← (c.run [lit "version"]).mapError fun cause => .observeVersion (some cause)
  refuse (result.exitCode != 0) (.observeVersion none)
  let output := trim isSpaceRune (symbols (result.stdout ++ result.stderr))
  refuse (!(fields isSpaceRune output).contains (symbols c.version)) (.version output c.version)

def manifestDigestPattern (digest : Bytes) : Bool := (lit "sha256:").isPrefixOf digest && validSHA256 (digest.drop 7)

def storeEntry (entry : GenerationInfoEntry) : StoreEntry where
  reference := entry.reference
  type := entry.type
  platform := if entry.platform = lit "-" then [] else entry.platform
  digest := entry.digest.drop 7
  size := entry.size

def acceptEntry (entry : GenerationInfoEntry) : Except StoreError Unit :=
  refuse (entry.reference == [] || (entry.type != lit "file" && entry.type != lit "image") ||
    !manifestDigestPattern entry.digest)
    (.message "Hauler store info contains an incomplete identity")

variable (sort : SliceSort)

/-- The identity of the entries that were listed. -/
def identify (version : Bytes) (observed : List GenerationInfoEntry) : Except StoreError StoreIdentity := do
  each acceptEntry observed
  let entries := sort.slice entryOrder (observed.map storeEntry)
  match marshal (some entries) with
  | none => throw .json
  | some canonical => pure { haulerVersion := version, indexSHA256 := sha256Hex canonical, entries := some entries }

def identifyListed (version stdout : Bytes) : Except StoreError StoreIdentity :=
  match (unmarshal stdout : Option (Option (List GenerationInfoEntry))) with
  | some (some (entry :: rest)) => identify sort version (entry :: rest)
  | _ => throw (.message "Hauler store info did not return a non-empty JSON inventory")

def validateStore (c : Client) (store : Bytes) : Except StoreError StoreIdentity := do
  refuse (c.version == [] || !rooted store)
    (.message "Hauler store validation requires a locked version and absolute store path")
  observeVersion c
  let result ← (c.info store).mapError .info
  refuse (result.exitCode != 0) (.exited result.exitCode)
  identifyListed sort c.version result.stdout

def canonicalStore (identity : StoreIdentity) : StoreIdentity :=
  { identity with
    entries := match elements identity.entries with
      | [] => none
      | entries => some (sort.slice entryOrder entries) }

def storeIdentitiesEqual (left right : StoreIdentity) : Bool := canonicalStore sort left == canonicalStore sort right

end Model

section Order

variable {sort : SliceSort} {version : Bytes} {observed observed' : List GenerationInfoEntry} {identity : StoreIdentity}

/-- Entries with one reference, type and platform are one entry. -/
def Distinguished (observed : List GenerationInfoEntry) : Prop :=
  ∀ a ∈ observed, ∀ b ∈ observed, entryOrder (storeEntry a) = entryOrder (storeEntry b) → storeEntry a = storeEntry b

/-- The inventory that the executable lists. -/
def Reports (c : Client) (store : Bytes) (observed : List GenerationInfoEntry) : Prop :=
  ∃ result, c.info store = .ok result ∧ unmarshal result.stdout = some (some observed)

theorem identify_of_validateStore {c : Client} {store : Bytes} (hReports : Reports c store observed)
    (h : validateStore sort c store = .ok identity) : identify sort c.version observed = .ok identity := by
  obtain ⟨result, hInfo, hDecoded⟩ := hReports
  simp only [validateStore, bind_eq_ok, mapError_eq_ok, hInfo] at h
  obtain ⟨-, -, -, -, result, hResult, -, -, hIdentity⟩ := h
  cases hResult
  rw [identifyListed, hDecoded] at hIdentity
  cases observed with
  | nil => cases hIdentity
  | cons entry rest => exact hIdentity

theorem identify_accepted (h : ∀ entry ∈ observed, acceptEntry entry = .ok ()) : ∃ index,
    identify sort version observed = .ok ⟨version, index, some (sort.slice entryOrder (observed.map storeEntry))⟩ := by
  obtain ⟨canonical, hWritten⟩ := exists_marshal (some (sort.slice entryOrder (observed.map storeEntry)))
  refine ⟨sha256Hex canonical, ?_⟩
  rw [identify, each_eq_ok.mpr h]
  simp only [hWritten]
  rfl

theorem accepted_of_identify (h : identify sort version observed = .ok identity) :
    ∀ entry ∈ observed, acceptEntry entry = .ok () := by
  rw [identify, andThen_eq_ok] at h
  exact each_eq_ok.mp h.1

theorem entries_of_identify (h : identify sort version observed = .ok identity) :
    identity.entries = some (sort.slice entryOrder (observed.map storeEntry)) := by
  have hIdentity : ∃ index, identify sort version observed = .ok ⟨version, index, _⟩ :=
    identify_accepted (accepted_of_identify h)
  obtain ⟨index, hIdentity⟩ := hIdentity
  cases h.symm.trans hIdentity
  rfl

theorem identify_perm (hPerm : observed'.Perm observed) (hDistinguished : Distinguished observed)
    (h : identify sort version observed = .ok identity) : identify sort version observed' = .ok identity := by
  have hEntries : sort.slice entryOrder (observed.map storeEntry) = sort.slice entryOrder
      (observed'.map storeEntry) := by
    refine sort.slice_eq_of_perm (hPerm.symm.map _) fun a ha b hb hKey => ?_
    obtain ⟨a, haMem, rfl⟩ := mem_map.mp ha
    obtain ⟨b, hbMem, rfl⟩ := mem_map.mp hb
    exact hDistinguished a haMem b hbMem hKey
  have hAccepted : each acceptEntry observed' = each acceptEntry observed := by
    rw [each_eq_ok.mpr (accepted_of_identify h), each_eq_ok]
    exact fun entry hEntry => accepted_of_identify h entry (hPerm.subset hEntry)
  rw [← h, identify, identify, hAccepted, hEntries]

theorem elements_canonicalStore (identity : StoreIdentity) :
    elements (canonicalStore sort identity).entries = sort.slice entryOrder (elements identity.entries) := by
  unfold canonicalStore
  split
  · rename_i hEmpty
    rw [hEmpty]
    exact (perm_nil.mp (sort.slice_perm entryOrder [])).symm
  · rfl

/-- Keys that stand the same and entries that do not give another identity. -/
theorem other_identity {swapped : List GenerationInfoEntry} (hPerm : swapped.Perm observed)
    (hKeys : (swapped.map storeEntry).map entryOrder = (observed.map storeEntry).map entryOrder)
    (hEntries : swapped.map storeEntry ≠ observed.map storeEntry) (h : identify sort version observed = .ok identity) :
    ∃ other, identify sort version swapped = .ok other ∧ other ≠ identity ∧
        storeIdentitiesEqual sort other identity = false := by
  have hOther : ∃ index, identify sort version swapped = .ok ⟨version, index, _⟩ :=
    identify_accepted fun entry hEntry => accepted_of_identify h entry (hPerm.subset hEntry)
  obtain ⟨index, hOther⟩ := hOther
  have hSorted : sort.slice entryOrder (swapped.map storeEntry) ≠ sort.slice entryOrder (observed.map storeEntry) :=
    fun hSame => hEntries (sort.slice_injective hKeys hSame)
  refine ⟨_, hOther, ?_, beq_eq_false_iff_ne.mpr fun hSame => ?_⟩
  · rintro rfl
    exact hSorted (Option.some.inj (entries_of_identify h))
  · have hElements : elements (canonicalStore sort _).entries = elements (canonicalStore sort identity).entries :=
      congrArg (elements ·.entries) hSame
    rw [elements_canonicalStore, elements_canonicalStore, entries_of_identify h] at hElements
    exact hSorted (sort.slice_injective (sort.map_key_slice hKeys) hElements)

theorem exists_other_identity (hTied : ¬ Distinguished observed) (h : identify sort version observed = .ok identity) :
    ∃ swapped other, swapped.Perm observed ∧ identify sort version swapped = .ok other ∧ other ≠ identity ∧
      storeIdentitiesEqual sort other identity = false := by
  unfold Distinguished at hTied
  push Not at hTied
  obtain ⟨a, ha, b, hb, hKey, hApart⟩ := hTied
  have hSame : (entryOrder ∘ storeEntry) a = (entryOrder ∘ storeEntry) b := hKey
  obtain ⟨swapped, hPerm, hKeys, hEntries⟩ := exists_exchanged ha hb hSame hApart
  rw [← map_map, ← map_map] at hKeys
  obtain ⟨other, hOther⟩ := other_identity hPerm hKeys hEntries h
  exact ⟨swapped, other, hPerm, hOther⟩

/-- The identity of an accepted inventory is the same for all orders, and the identities from any two orders
compare as equal, exactly if no two of its entries agree in reference, type and platform and differ otherwise. -/
theorem validateStore_order_free_iff (sort : SliceSort) (c : Client) (store : Bytes)
    (observed : List GenerationInfoEntry)
    (identity : StoreIdentity) (hReports : Reports c store observed)
    (hAccepted : validateStore sort c store = .ok identity) :
    ((∀ listed : List GenerationInfoEntry, listed.Perm observed → identify sort c.version listed = .ok identity) ↔
      Distinguished observed) ∧
    ((∀ (left right : List GenerationInfoEntry) (i j : StoreIdentity), left.Perm observed → right.Perm observed →
        identify sort c.version left = .ok i → identify sort c.version right = .ok j →
        storeIdentitiesEqual sort i j = true) ↔
      Distinguished observed) := by
  have hIdentity := identify_of_validateStore hReports hAccepted
  refine ⟨⟨fun hAll => ?_, fun h listed hPerm => identify_perm hPerm h hIdentity⟩, fun hAll => ?_, fun h => ?_⟩
  · by_contra hTied
    obtain ⟨swapped, other, hPerm, hOther, hNe, -⟩ := exists_other_identity hTied hIdentity
    exact hNe (Except.ok.inj (hOther.symm.trans (hAll swapped hPerm)))
  · by_contra hTied
    obtain ⟨swapped, other, hPerm, hOther, -, hUnequal⟩ := exists_other_identity hTied hIdentity
    have hEqual := hAll swapped observed other identity hPerm (Perm.refl _) hOther hIdentity
    exact Bool.false_ne_true (hUnequal.symm.trans hEqual)
  · intro left right i j hLeft hRight hi hj
    have hi' := Except.ok.inj (hi.symm.trans (identify_perm hLeft h hIdentity))
    have hj' := Except.ok.inj (hj.symm.trans (identify_perm hRight h hIdentity))
    rw [hi', hj']
    exact beq_self_eq_true _

end Order

section Samples

def sampleEntry (platform : String) (digit : UInt8) : GenerationInfoEntry :=
  ⟨lit "hauler/root.tar.zst:latest", lit "file", lit platform, lit "sha256:" ++ replicate 64 digit, 1⟩

/-- One reference twice, with different contents. -/
def sampleInventory : List GenerationInfoEntry := [sampleEntry "-" 97, sampleEntry "" 98]

/-- An executable that lists the given inventory. -/
def sampleClient (inventory : List GenerationInfoEntry) : Client where
  version := lit "v1"
  run argv := .ok ⟨0, if argv = [lit "version"] then lit "v1" else (marshal (some inventory)).getD [], []⟩

def sampleStore : Bytes := lit "/store"

theorem validateStore_sample {sort : SliceSort} {inventory : List GenerationInfoEntry} (hEntries : inventory ≠ [])
    (hVersion : observeVersion (sampleClient inventory) = .ok ())
    (hReports : Reports (sampleClient inventory) sampleStore inventory) :
    validateStore sort (sampleClient inventory) sampleStore = identify sort (lit "v1") inventory := by
  obtain ⟨result, hInfo, hDecoded⟩ := hReports
  cases hInfo
  obtain ⟨entry, rest, rfl⟩ := exists_cons_of_ne_nil hEntries
  have hGate : (lit "v1" == [] || !rooted sampleStore) = false := by decide
  show (refuse (lit "v1" == [] || !rooted sampleStore) _ >>= fun _ => _) = _
  rw [refuse_eq_ok (u := ()) |>.mpr hGate]
  show (observeVersion (sampleClient (entry :: rest)) >>= fun _ => _) = _
  rw [hVersion]
  show identifyListed sort (lit "v1") _ = _
  rw [identifyListed, hDecoded]

theorem reversed_identity (sort : SliceSort) : ∃ identity other,
    validateStore sort (sampleClient sampleInventory) sampleStore = .ok identity ∧
    validateStore sort (sampleClient sampleInventory.reverse) sampleStore = .ok other ∧
    other ≠ identity ∧ storeIdentitiesEqual sort other identity = false := by
  have hAccepted : ∀ entry ∈ sampleInventory, acceptEntry entry = .ok () := by decide +kernel
  have hIdentity : ∃ index, identify sort (lit "v1") sampleInventory = .ok ⟨lit "v1", index, _⟩ :=
      identify_accepted hAccepted
  obtain ⟨index, hIdentity⟩ := hIdentity
  obtain ⟨other, hOther⟩ := other_identity sampleInventory.reverse_perm (by decide) (by decide +kernel) hIdentity
  refine ⟨_, other, ?_, ?_, hOther.2⟩
  · rw [validateStore_sample (by decide) (by decide +kernel) ⟨_, rfl, by decide +kernel⟩, hIdentity]
  · rw [validateStore_sample (by decide) (by decide +kernel) ⟨_, rfl, by decide +kernel⟩, hOther.1]

/-- At the insertion sort, which moves both orders of two equal keys alike. -/
theorem sampleInventory_depends_on_order : ∃ identity other,
    validateStore insertionSlice (sampleClient sampleInventory) sampleStore = .ok identity ∧
    validateStore insertionSlice (sampleClient sampleInventory.reverse) sampleStore = .ok other ∧
    other ≠ identity ∧ storeIdentitiesEqual insertionSlice other identity = false :=
  reversed_identity insertionSlice

def twoPlatforms : List GenerationInfoEntry := [sampleEntry "linux/arm64" 97, sampleEntry "linux/amd64" 98]

theorem validateStore_twoPlatforms : ∃ identity,
    validateStore insertionSlice (sampleClient twoPlatforms) sampleStore = .ok identity ∧
    (∀ listed : List GenerationInfoEntry, listed.Perm twoPlatforms →
      identify insertionSlice (lit "v1") listed = .ok identity) ∧
    identify insertionSlice (lit "v1") twoPlatforms.reverse = .ok identity := by
  have hAccepted : ∀ entry ∈ twoPlatforms, acceptEntry entry = .ok () := by decide
  have hIdentity : ∃ index, identify insertionSlice (lit "v1") twoPlatforms = .ok ⟨lit "v1", index, _⟩ :=
    identify_accepted hAccepted
  obtain ⟨index, hIdentity⟩ := hIdentity
  have hReports : Reports (sampleClient twoPlatforms) sampleStore twoPlatforms := ⟨_, rfl, by decide +kernel⟩
  have hStore : validateStore insertionSlice (sampleClient twoPlatforms) sampleStore = .ok _ :=
    (validateStore_sample (by decide) (by decide) hReports).trans hIdentity
  have hSame := (validateStore_order_free_iff insertionSlice _ _ _ _ hReports hStore).1.mpr (by
    unfold Distinguished
    decide)
  exact ⟨_, hStore, hSame, hSame _ (reverse_perm _)⟩

end Samples

end Camp.HaulKit
