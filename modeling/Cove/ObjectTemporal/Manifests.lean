import Cove.Lib.ByteCursor
import Cove.Lib.Digests
import Cove.Lib.HashChain
import Cove.ObjectTemporal.Segment

/-!
# The trust chain and the redaction manifest

Every record may carry a hash of its values after the hash of the record before it. The trust
manifest of a file lists such hashes for rows of its segments.

- `chain`, `verifyChain`: the hash of one record, and the check of a sequence of them.
- **`records_of_verifyChain`**: verified sequences that end on one hash have the same records.
- **`rows_of_verifyAgainst`**: verified manifests of two files that end on one hash name the same
  rows.
- `RedactionEntry`, **`parse_redactions_iff`**: which bytes are parsed as a redaction manifest.
-/

namespace Cove

open HashChain ByteCursor LittleEndian Checked

/-- `chain`. The digest of a number's 32 bytes, the highest first, and of a payload. -/
def chain (prevHash : Fin (2 ^ 256)) (payload : List UInt8) : Fin (2 ^ 256) :=
  Sha256.digest ((toLe 32 prevHash.val).reverse ++ payload)

/-- `verify_chain`, after the hash `prev`. -/
def verifyChain : Fin (2 ^ 256) → List (List UInt8 × Fin (2 ^ 256)) → Except CoveError Unit
  | _, [] => .ok ()
  | prev, (payload, expected) :: records =>
    if chain prev payload ≠ expected then .error .digestMismatch
    else verifyChain (chain prev payload) records

variable {hash : TrustHash} {segments segments' : List TemporalSegmentData}
  {prev genesis genesis' : Fin (2 ^ 256)}

/-- A sequence is verified exactly when its hashes are those of the chain. -/
theorem verifyChain_eq_ok_iff {records : List (List UInt8 × Fin (2 ^ 256))} :
    verifyChain prev records = .ok () ↔
      records.map Prod.snd = heads chain prev (records.map Prod.fst) := by
  induction records generalizing prev with
  | nil => exact ⟨fun _ => rfl, fun _ => rfl⟩
  | cons record records ih =>
    obtain ⟨payload, expected⟩ := record
    rw [verifyChain, ite_error_eq_ok, not_ne_iff, ih, List.map_cons, List.map_cons, heads,
      List.cons.injEq]
    exact and_congr_left' eq_comm

variable {entries : List TrustManifestEntryV1}

/-- A manifest is verified exactly when it names rows whose hashes are those of the chain. -/
theorem verifyAgainst_eq_ok_iff :
    verifyAgainst hash segments prev entries = .ok () ↔
      ∃ rows, entries.map (manifestRow segments) = rows.map some ∧
        entries.map TrustManifestEntryV1.expectedHash = heads hash prev rows := by
  induction entries generalizing prev with
  | nil =>
    refine ⟨fun _ => ⟨[], rfl, rfl⟩, fun _ => rfl⟩
  | cons entry entries ih =>
    rw [verifyAgainst]
    cases hrow : manifestRow segments entry with
    | none =>
      refine ⟨nofun, ?_⟩
      rintro ⟨rows, hrows, -⟩
      rw [List.map_cons, hrow] at hrows
      cases rows <;> simp at hrows
    | some row =>
      dsimp only
      rw [ite_error_eq_ok, not_ne_iff, ih]
      constructor
      · rintro ⟨hhash, rows, hrows, hheads⟩
        refine ⟨row :: rows, ?_, ?_⟩
        · rw [List.map_cons, List.map_cons, hrow, hrows]
        · rw [List.map_cons, heads, hhash, hheads, hhash]
      · rintro ⟨rows, hrows, hheads⟩
        rw [List.map_cons, hrow] at hrows
        cases rows with
        | nil => cases hrows
        | cons row' rows =>
          obtain ⟨hhead, htail⟩ := List.cons.inj hrows
          obtain rfl := Option.some.inj hhead
          obtain ⟨hhash, hrest⟩ := List.cons.inj hheads
          exact ⟨hhash.symm, rows, htail, hrest⟩

/-- **The last hash of a trust manifest commits to the rows**: the manifests of two files that are
verified and end on one hash name the same rows in the same order, unless rows hash back to the
first hash, or two links clash. -/
theorem rows_of_verifyAgainst {entries' : List TrustManifestEntryV1}
    (h : verifyAgainst hash segments 0 entries = .ok ())
    (h' : verifyAgainst hash segments' 0 entries' = .ok ())
    (hlast : (entries.map TrustManifestEntryV1.expectedHash).getLastD 0 =
      (entries'.map TrustManifestEntryV1.expectedHash).getLastD 0) :
    ∃ rows rows', entries.map (manifestRow segments) = rows.map some ∧
      entries'.map (manifestRow segments') = rows'.map some ∧ Committed hash 0 rows 0 rows' := by
  obtain ⟨rows, hrows, hheads⟩ := verifyAgainst_eq_ok_iff.mp h
  obtain ⟨rows', hrows', hheads'⟩ := verifyAgainst_eq_ok_iff.mp h'
  rw [hheads, hheads', getLastD_heads, getLastD_heads] at hlast
  exact ⟨rows, rows', hrows, hrows', committed_of_foldl_eq hlast⟩

/-- A segment with one row. -/
def trustedSegment : TemporalSegmentData where
  header := ⟨7, 0, 0, 0, 0, 0, 1, 1, 1, 0⟩
  rows := [⟨0, 0, 0, 0, 0, .baseline, none⟩]
  propertyColumns := []

theorem rows_of_verifyAgainst_one :
    ∃ rows rows', [manifestRow [trustedSegment] ⟨7, 0, 1⟩] = rows.map some ∧
      [manifestRow [trustedSegment] ⟨7, 0, 1⟩] = rows'.map some ∧
        Committed (fun prev _ => prev + 1) (0 : Fin (2 ^ 256)) rows 0 rows' := by
  have hverified : verifyAgainst (fun prev _ => prev + 1) [trustedSegment] 0 [⟨7, 0, 1⟩] = .ok () := by
    decide
  exact rows_of_verifyAgainst hverified hverified rfl

/-! ## The redaction manifest -/

/-- `RedactionEntry`. The word `createdAtUs` is a signed one. -/
structure RedactionEntry where
  redactionId : BitVec 64
  sectionId : BitVec 32
  localRef : BitVec 64
  reasonCode : BitVec 16
  policyId : List UInt8
  auditRef : List UInt8
  createdAtUs : BitVec 64

namespace RedactionManifest

/-- `read_bytes`. -/
def readBytes (bytes : List UInt8) : Except CoveError (List UInt8 × List UInt8) := do
  let (len, bytes) ← ByteCursor.takeNat .bufferTooShort 2 bytes
  take .bufferTooShort len bytes

/-- One entry, as the loop of `parse` reads it. -/
def readEntry (bytes : List UInt8) : Except CoveError (RedactionEntry × List UInt8) := do
  let (redactionId, bytes) ← takeWord .bufferTooShort 8 bytes
  let (sectionId, bytes) ← takeWord .bufferTooShort 4 bytes
  let (localRef, bytes) ← takeWord .bufferTooShort 8 bytes
  let (reasonCode, bytes) ← takeWord .bufferTooShort 2 bytes
  let (policyId, bytes) ← readBytes bytes
  let (auditRef, bytes) ← readBytes bytes
  let (createdAtUs, bytes) ← takeWord .bufferTooShort 8 bytes
  return (⟨redactionId, sectionId, localRef, reasonCode, policyId, auditRef, createdAtUs⟩, bytes)

/-- `RedactionManifest::parse`. What stands behind the entries is not looked at. -/
def parse (bytes : List UInt8) : Except CoveError (List RedactionEntry) := do
  let (count, bytes) ← ByteCursor.takeNat .bufferTooShort 4 bytes
  let (entries, _) ← many readEntry count bytes
  return entries

/-- `write_len_prefixed`. -/
def writeLenPrefixed (bytes : List UInt8) (what : String) : Except CoveError (List UInt8) :=
  if bytes.length < 2 ^ 16 then .ok (toLe 2 bytes.length ++ bytes)
  else .error (.badSection (what ++ " exceeds u16 length limit"))

/-- One entry, as the loop of `serialize` writes it. -/
def writeEntry (entry : RedactionEntry) : Except CoveError (List UInt8) := do
  let policyId ← writeLenPrefixed entry.policyId "redaction policy_id"
  let auditRef ← writeLenPrefixed entry.auditRef "redaction audit_ref"
  return toLe 8 entry.redactionId.toNat ++ toLe 4 entry.sectionId.toNat ++
    toLe 8 entry.localRef.toNat ++ toLe 2 entry.reasonCode.toNat ++ policyId ++ auditRef ++
      toLe 8 entry.createdAtUs.toNat

/-- `RedactionManifest::serialize`. The cast of the number of entries drops its high bytes. -/
def serialize (entries : List RedactionEntry) : Except CoveError (List UInt8) := do
  let fronts ← entries.mapM writeEntry
  return toLe 4 entries.length ++ fronts.flatten

theorem writeLenPrefixed_eq_ok {bytes out : List UInt8} {what : String} :
    writeLenPrefixed bytes what = .ok out ↔
      bytes.length < 256 ^ 2 ∧ toLe 2 bytes.length ++ bytes = out := by
  rw [writeLenPrefixed]
  split
  next h => exact ⟨fun hout => ⟨h, Except.ok.inj hout⟩, fun hout => congrArg _ hout.2⟩
  next h => exact ⟨nofun, fun hout => absurd hout.1 h⟩

variable {bytes rest : List UInt8}

/-- An entry is read exactly from what is written of it. -/
theorem readEntry_eq_ok {entry : RedactionEntry} :
    readEntry bytes = .ok (entry, rest) ↔
      ∃ front, bytes = front ++ rest ∧ writeEntry entry = .ok front := by
  simp only [readEntry, readBytes, writeEntry, bind_eq_ok, Prod.exists, takeWord_eq_ok,
    takeNat_eq_ok, take_eq_ok, writeLenPrefixed_eq_ok]
  constructor
  · rintro ⟨_, _, rfl, _, _, rfl, _, _, rfl, _, _, rfl, _, _, ⟨_, _, ⟨hpolicy, rfl⟩, rfl, rfl⟩,
      _, _, ⟨_, _, ⟨haudit, rfl⟩, rfl, rfl⟩, _, _, rfl, h⟩
    obtain ⟨rfl, rfl⟩ := Prod.mk.inj (Except.ok.inj h)
    refine ⟨_, ?_, _, ⟨hpolicy, rfl⟩, _, ⟨haudit, rfl⟩, rfl⟩
    simp only [List.append_assoc]
  · rintro ⟨_, rfl, _, ⟨hpolicy, rfl⟩, _, ⟨haudit, rfl⟩, h⟩
    obtain rfl := Except.ok.inj h
    simp only [List.append_assoc]
    exact ⟨_, _, rfl, _, _, rfl, _, _, rfl, _, _, rfl, _, _, ⟨_, _, ⟨hpolicy, rfl⟩, rfl, rfl⟩,
      _, _, ⟨_, _, ⟨haudit, rfl⟩, rfl, rfl⟩, _, _, rfl, rfl⟩

/-- **A manifest is parsed exactly from what is written of it**, whatever follows. -/
theorem parse_redactions_iff {entries : List RedactionEntry} :
    parse bytes = .ok entries ↔
      entries.length < 2 ^ 32 ∧ ∃ out rest, serialize entries = .ok out ∧ bytes = out ++ rest := by
  simp only [parse, serialize, bind_eq_ok, Prod.exists, mapM_eq_ok, takeNat_eq_ok]
  constructor
  · rintro ⟨_, _, ⟨hlt, rfl⟩, _, rest, hread, h⟩
    obtain rfl := Except.ok.inj h
    obtain ⟨fronts, hall, rfl, rfl⟩ :=
      exists_fronts_of_many (fun _ _ _ => readEntry_eq_ok.mp) hread
    exact ⟨hlt, _, rest, ⟨fronts, hall, rfl⟩, (List.append_assoc ..).symm⟩
  · rintro ⟨hlt, _, rest, ⟨fronts, hall, h⟩, rfl⟩
    obtain rfl := Except.ok.inj h
    have hread : many readEntry _ (fronts.flatten ++ rest) = _ :=
      many_flatten (hall.imp fun _ front h _ => readEntry_eq_ok.mpr ⟨front, rfl, h⟩) rest
    exact ⟨_, _, ⟨hlt, List.append_assoc ..⟩, entries, rest, hread, rfl⟩

end RedactionManifest

end Cove
