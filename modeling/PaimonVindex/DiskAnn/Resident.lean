import PaimonVindex.DiskAnn.RowIds
import PaimonVindex.DiskAnn.SharedShard
import PaimonVindex.DiskAnn.Validate
import PaimonVindex.Ivf.IoUtil

/-! What a reader keeps in memory besides its caches, how many bytes that takes
while it is loaded and afterwards, and the budget that is left for the caches. -/

namespace PaimonVindex

open Checked

def diskannResidentDecodeBufferSize : Nat := 1024 * 1024

def diskannAdjacencyPreloadAlignment : Nat := 64 * 1024

structure ResolvedVectorIndexReaderOptions where
  readTier : DeploymentProfile
  adjacencyPreloadBytes : Nat
  adjacencyCacheBytes : Nat
  maxResidentBytes : Nat
  rawVectorCacheBytes : Nat
  deriving DecidableEq, Repr

structure VectorIndexReaderOptions where
  memoryBudgetBytes : Nat
  cacheOverrides : Option ResolvedVectorIndexReaderOptions
  deriving DecidableEq, Repr

namespace VectorIndexReaderOptions

def new (memoryBudgetBytes : Nat) : VectorIndexReaderOptions := ⟨memoryBudgetBytes, none⟩

def preloadCap : DeploymentProfile → Nat
  | .auto | .memory | .localStorage => 16 * 1024 * 1024
  | .remoteStorage => 32 * 1024 * 1024
  | .objectStore => 64 * 1024 * 1024

def perCacheCap : DeploymentProfile → Nat
  | .remoteStorage | .objectStore => wordSize - 1
  | .auto | .memory | .localStorage => 64 * 1024 * 1024

def resolveCacheBudgets (options : VectorIndexReaderOptions) (readTier : DeploymentProfile)
    (residentSteadyBytes adjacencySectionBytes rawVectorSectionBytes : Nat) :
    ResolvedVectorIndexReaderOptions :=
  match options.cacheOverrides with
  | some overrides => { overrides with readTier := readTier }
  | none =>
    let available := options.memoryBudgetBytes - residentSteadyBytes
    let adjacencyPreloadBytes :=
      min (min (available / 2) (preloadCap readTier)) adjacencySectionBytes
    let afterPreload := available - adjacencyPreloadBytes
    let cap := perCacheCap readTier
    let coldAdjacencyBytes := adjacencySectionBytes - adjacencyPreloadBytes
    let adjacencyCacheBytes := min (min (afterPreload / 2) cap) coldAdjacencyBytes
    let rawVectorCacheBytes :=
      min (min (afterPreload - adjacencyCacheBytes) cap) rawVectorSectionBytes
    let unassigned := afterPreload - adjacencyCacheBytes - rawVectorCacheBytes
    let adjacencyExtra := min (min unassigned (cap - adjacencyCacheBytes))
      (coldAdjacencyBytes - adjacencyCacheBytes)
    let unassigned' := unassigned - adjacencyExtra
    let vectorExtra := min (min unassigned' (cap - rawVectorCacheBytes))
      (rawVectorSectionBytes - rawVectorCacheBytes)
    { readTier := readTier
      adjacencyPreloadBytes := adjacencyPreloadBytes
      adjacencyCacheBytes := saturatingAdd adjacencyCacheBytes adjacencyExtra
      maxResidentBytes := options.memoryBudgetBytes
      rawVectorCacheBytes := saturatingAdd rawVectorCacheBytes vectorExtra }

end VectorIndexReaderOptions

open VectorIndexReaderOptions

theorem saturatingAdd_le (a b : Nat) : saturatingAdd a b ≤ a + b := Nat.min_le_left _ _

theorem resolveCacheBudgets_new (budget : Nat) (readTier : DeploymentProfile)
    (steady adjacencyBytes vectorBytes : Nat) :
    let resolved := (new budget).resolveCacheBudgets readTier steady
      adjacencyBytes vectorBytes
    resolved.maxResidentBytes = budget ∧
      resolved.adjacencyCacheBytes + resolved.rawVectorCacheBytes ≤ budget - steady := by
  refine ⟨rfl, ?_⟩
  simp only [resolveCacheBudgets, new]
  generalize budget - steady = available
  generalize min (min (available / 2) _) adjacencyBytes = preload
  generalize perCacheCap readTier = cap
  generalize adjacencyBytes - preload = cold
  have hadjacency : min (min ((available - preload) / 2) cap) cold ≤ available - preload := by
    omega
  generalize min (min ((available - preload) / 2) cap) cold = adjacency at *
  have hraw : min (min (available - preload - adjacency) cap) vectorBytes ≤
      available - preload - adjacency := by omega
  generalize min (min (available - preload - adjacency) cap) vectorBytes = raw at *
  refine (Nat.add_le_add (saturatingAdd_le _ _) (saturatingAdd_le _ _)).trans ?_
  omega

/-! ### Sizes -/

def sectionLenUsize (range : SectionRange) (name : String) : IoResult Nat :=
  okOr (fitsIn wordSize range.length) (invalidData s!"DiskANN {name} section exceeds usize")

variable (header : DiskAnnHeader)

def decodedPqCodebookBytes : IoResult Nat := do
  let offsets ← okOr ((checkedAdd header.pqM 1).bind (checkedMul · 8))
    (invalidData "DiskANN decoded PQ offset size overflows usize")
  let ksub ← diskannPqKsub header.pqBits
  let centroids ← okOr ((checkedMul header.dimension ksub).bind (checkedMul · 4))
    (invalidData "DiskANN decoded PQ centroid size overflows usize")
  okOr (checkedAdd offsets centroids)
    (invalidData "DiskANN decoded PQ codebook size overflows usize")

def adjacencyPageCount : IoResult Nat := do
  let adjacencyBytes ← sectionLenUsize header.sections.adjacency "adjacency"
  rejectIf (adjacencyBytes % diskannPageSize ≠ 0)
    (invalidData "DiskANN adjacency section is not page-aligned")
  return adjacencyBytes / diskannPageSize

def adjacencyValidationBytes : IoResult Nat := do
  okOr (checkedMul (← adjacencyPageCount header) 1)
    (invalidData "DiskANN adjacency validation size overflows usize")

def residentRowIdBytes : IoResult Nat := do
  let rowIds ← sectionLenUsize header.sections.rowIds "row IDs"
  okOr (checkedSub rowIds rowIdSectionHeaderSize)
    (invalidData "DiskANN row-ID section header is truncated")

def pqNormBytes : IoResult Nat := do
  let ksub ← diskannPqKsub header.pqBits
  okOr ((checkedMul header.pqM ksub).bind (checkedMul · 4))
    (invalidData "DiskANN PQ norms size overflows usize")

def checkedResidentSum (parts : List Nat) : IoResult Nat :=
  checkedSum parts (invalidData "DiskANN resident size overflows usize")

def residentPeakBytes : IoResult Nat := do
  let serializedCodebook ← sectionLenUsize header.sections.codebook "PQ codebook"
  let decodedCodebook ← decodedPqCodebookBytes header
  let serializedRowIds ← sectionLenUsize header.sections.rowIds "row IDs"
  let decodedRowIds ← residentRowIdBytes header
  let pqCodes ← sectionLenUsize header.sections.pqCodes "PQ codes"
  let serializedAdjacencyIndex ← sectionLenUsize header.sections.adjacencyIndex "adjacency index"
  let adjacencyValidation ← adjacencyValidationBytes header
  let pqNorms ← pqNormBytes header
  let serializedPayloads ← checkedResidentSum
    [serializedCodebook, serializedRowIds, pqCodes, serializedAdjacencyIndex, 1]
  let codebookDecode ← okOr (checkedAdd serializedPayloads decodedCodebook)
    (invalidData "DiskANN resident peak size overflows usize")
  let rowIdDecode ← checkedResidentSum [serializedRowIds, pqCodes, serializedAdjacencyIndex,
    decodedCodebook, decodedRowIds, 1]
  let adjacencyDecode ← checkedResidentSum [pqCodes, serializedAdjacencyIndex, decodedCodebook,
    decodedRowIds, serializedAdjacencyIndex, 1]
  let steady ← checkedResidentSum [decodedCodebook, decodedRowIds, pqCodes, pqNorms,
    serializedAdjacencyIndex, adjacencyValidation]
  return max (max (max codebookDecode rowIdDecode) adjacencyDecode) steady

def residentSteadyBytes : IoResult Nat := do
  let pqNorms ← pqNormBytes header
  let decodedCodebook ← decodedPqCodebookBytes header
  let decodedRowIds ← residentRowIdBytes header
  let pqCodes ← sectionLenUsize header.sections.pqCodes "PQ codes"
  let serializedAdjacencyIndex ← sectionLenUsize header.sections.adjacencyIndex "adjacency index"
  let adjacencyValidation ← adjacencyValidationBytes header
  checkedResidentSum [decodedCodebook, decodedRowIds, pqCodes, serializedAdjacencyIndex,
    adjacencyValidation, pqNorms]

def rowIdOrderPeakBytes (hotAdjacency : Nat) : IoResult Nat := do
  let order ← sectionLenUsize header.sections.rowIdOrder "row-ID order"
  let scratch := min order diskannResidentDecodeBufferSize
  let steady ← residentSteadyBytes header
  checkedSum [steady, hotAdjacency, order, scratch]
    (invalidData "DiskANN row-ID lookup peak size overflows usize")

theorem residentSteadyBytes_le_peak {header : DiskAnnHeader} {steady peak : Nat}
    (hsteady : residentSteadyBytes header = .ok steady)
    (hpeak : residentPeakBytes header = .ok peak) : steady ≤ peak := by
  simp only [residentSteadyBytes, checkedResidentSum, bind_eq_ok, checkedSum_eq_ok] at hsteady
  obtain ⟨norms, hnorms, codebook, hcodebook, rowIds, hrowIds, codes, hcodes, index, hindex,
    validation, hvalidation, hsteady⟩ := hsteady
  simp only [residentPeakBytes, checkedResidentSum, bind_eq_ok, checkedSum_eq_ok, hnorms,
    hcodebook, hrowIds, hcodes, hindex, hvalidation, Except.ok.injEq, exists_eq_left', pure_eq_ok,
    List.sum_cons, List.sum_nil] at hpeak hsteady
  obtain ⟨_, -, _, -, _, -, _, -, _, -, _, -, final, hfinal, rfl⟩ := hpeak
  omega

theorem rowIdOrderPeakBytes_eq_ok {header : DiskAnnHeader} {hot steady peak : Nat}
    (hsteady : residentSteadyBytes header = .ok steady)
    (hpeak : rowIdOrderPeakBytes header hot = .ok peak) :
    steady + hot + header.sections.rowIdOrder.length ≤ peak ∧ peak < wordSize := by
  simp only [rowIdOrderPeakBytes, sectionLenUsize, accepted, fitsIn_eq_some, checkedSum_eq_ok,
    hsteady, Except.ok.injEq, exists_eq_left', List.sum_cons, List.sum_nil] at hpeak
  obtain ⟨_, ⟨rfl, -⟩, hsum⟩ := hpeak
  omega

/-! ### Reading sections -/

def mapSectionReadError (name : String) (error : IoError) : IoError :=
  if error.kind = .unexpectedEof then invalidData s!"DiskANN {name} is truncated" else error

def readSection (source : SeekRead) (name : String) (offset length : Nat) :
    IoResult (List UInt8) :=
  (source.pread offset length).mapError (mapSectionReadError name)

variable {source : SeekRead}

theorem readSection_length {name : String} {offset length : Nat} {bytes : List UInt8}
    (h : readSection source name offset length = .ok bytes) : bytes.length = length := by
  rw [readSection] at h
  cases hread : source.pread offset length with
  | error e =>
    rw [hread] at h
    cases h
  | ok payload =>
    rw [hread] at h
    cases h
    exact source.pread_length hread

/-- Reads `remaining` bytes in chunks of at most `scratch`. -/
def readU32Chunks (source : SeekRead) (name : String) (scratch : Nat) :
    (rounds offset remaining : Nat) → IoResult (List UInt32)
  | 0, _, _ => .ok []
  | rounds + 1, offset, remaining =>
    if remaining = 0 then .ok []
    else do
      let chunkLen := min remaining scratch
      let chunk ← readSection source name offset chunkLen
      let rest ← readU32Chunks source name scratch rounds (offset + chunkLen)
        (remaining - chunkLen)
      return (Words.chunksExact 4 chunk).map u32OfBytes ++ rest

def readU32Section (source : SeekRead) (range : SectionRange) (name : String) :
    IoResult (List UInt32) := do
  let sectionLen ← sectionLenUsize range name
  rejectIf (sectionLen % 4 ≠ 0) (invalidData s!"DiskANN {name} section is not u32-aligned")
  let scratch := max (min sectionLen diskannResidentDecodeBufferSize) 4
  readU32Chunks source name scratch sectionLen range.offset sectionLen

theorem readU32Chunks_length {name : String} {scratch : Nat} (hscratch : 0 < scratch)
    (haligned : 4 ∣ scratch) {rounds offset remaining : Nat} (hrounds : remaining ≤ rounds)
    (hremaining : 4 ∣ remaining) {values : List UInt32}
    (h : readU32Chunks source name scratch rounds offset remaining = .ok values) :
    values.length * 4 = remaining := by
  induction rounds generalizing offset remaining values with
  | zero =>
    cases h
    simp
    omega
  | succ rounds ih =>
    rw [readU32Chunks] at h
    split at h
    · rename_i hzero
      cases h
      simp [hzero]
    · simp only [accepted] at h
      obtain ⟨chunk, hchunk, rest, hrest, rfl⟩ := h
      have hlen := readSection_length hchunk
      have hmin : 4 ∣ min remaining scratch := by omega
      have htail := ih (by omega) (by omega) hrest
      rw [List.length_append, List.length_map, Words.chunksExact_length, hlen]
      omega

theorem readU32Section_length {range : SectionRange} {name : String} {values : List UInt32}
    (h : readU32Section source range name = .ok values) : values.length * 4 = range.length := by
  simp only [readU32Section, sectionLenUsize, accepted, fitsIn_eq_some] at h
  obtain ⟨_, ⟨rfl, -⟩, hmod, h⟩ := h
  have hsize : 4 ∣ diskannResidentDecodeBufferSize := by decide
  exact readU32Chunks_length (by omega) (by omega) le_rfl (by omega) h

def validatePqCodePadding (codes : List UInt8) : IoResult Unit :=
  if header.pqBits ≠ 4 ∨ header.pqM % 2 = 0 then .ok ()
  else do
    let codeSize ← diskannPqCodeSize header.pqM header.pqBits
    rejectIf ((Words.chunksExact codeSize codes).any fun code =>
        code.getLast?.any fun byte => byte &&& 0xf0 ≠ 0)
      (invalidData "DiskANN odd 4-bit PQ codes must zero the unused high nibble")

structure ResidentSections where
  rowIds : RowIdStorage
  pqCodes : List UInt8
  adjacencyIndex : AdjacencyIndex

/-- The sections in file order and the last byte of the file; the decoder of
the codebook is left open. -/
def readResidentSections (decodePqCodebook : List UInt8 → DiskAnnHeader → IoResult Unit)
    (source : SeekRead) (header : DiskAnnHeader) : IoResult ResidentSections := do
  rejectIf (header.fileLen = 0) (panicked "attempt to subtract with overflow")
  let codebookLen ← sectionLenUsize header.sections.codebook "PQ codebook"
  let rowIdsLen ← sectionLenUsize header.sections.rowIds "row IDs"
  let pqCodesLen ← sectionLenUsize header.sections.pqCodes "PQ codes"
  let adjacencyIndexLen ← sectionLenUsize header.sections.adjacencyIndex "adjacency index"
  let codebook ← readSection source "resident sections" header.sections.codebook.offset codebookLen
  let rowIds ← readSection source "resident sections" header.sections.rowIds.offset rowIdsLen
  let pqCodes ← readSection source "resident sections" header.sections.pqCodes.offset pqCodesLen
  let adjacencyIndex ← readSection source "resident sections"
    header.sections.adjacencyIndex.offset adjacencyIndexLen
  let _ ← readSection source "resident sections" (header.fileLen - 1) 1
  decodePqCodebook codebook header
  let rowIds ← decodeRowIdSectionOwned rowIds header.vectorCount
  let adjacencyIndex ← decodeAdjacencyIndex adjacencyIndex header
  return ⟨rowIds, pqCodes, adjacencyIndex⟩

end PaimonVindex
