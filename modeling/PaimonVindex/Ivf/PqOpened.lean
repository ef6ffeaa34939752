import PaimonVindex.Ivf.PqScan

/-! What an IVF-PQ reader knows of its file: the shape that the header decides,
and the tables that are there once they are loaded. -/

namespace PaimonVindex

open Checked

theorem validatePositiveI32_pos {val : Int32} {field : String} {n : Nat}
    (h : validatePositiveI32 val field = .ok n) : 0 < n := by
  simp only [validatePositiveI32, accepted] at h
  obtain ⟨hpos, rfl⟩ := h
  have hlt : (0 : Int32).toInt < val.toInt := Int32.lt_iff_toInt_lt.mp (Int32.not_le.mp hpos)
  rw [Int32.toInt_zero] at hlt
  omega

theorem bytesToF32Vec_length {bytes : List UInt8} {values : List F32}
    (h : bytesToF32Vec bytes = .ok values) : values.length = bytes.length / 4 := by
  simp only [bytesToF32Vec, accepted] at h
  rw [← h.2, List.length_map, Words.chunksExact_length]

namespace IVFPQIndexReader

theorem requiredFlags_transposed {flags : UInt32} (h : flags &&& requiredFlags = requiredFlags) :
    flags &&& flagTransposedCodes ≠ 0 := by
  have hpart : requiredFlags &&& flagTransposedCodes = flagTransposedCodes := by decide
  rw [← hpart, ← UInt32.and_assoc, h, hpart]
  decide

variable {K : Type}

structure HeaderShape (reader : IVFPQIndexReader K) : Prop where
  nlist_pos : 0 < reader.nlist
  m_pos : 0 < reader.m
  dsub_pos : 0 < reader.dsub
  d_eq : reader.d = reader.m * reader.dsub
  pq_d : reader.pq.d = reader.d
  pq_m : reader.pq.m = reader.m
  nbits_eq : reader.pq.nbits = 4 ∨ reader.pq.nbits = 8
  ksub_eq : reader.pq.ksub = reader.ksub
  transposed : reader.transposedCodes = true

structure LoadedShape (reader : IVFPQIndexReader K) : Prop extends HeaderShape reader where
  loaded : reader.loaded = true
  centroids_length : reader.quantizerCentroids.length = reader.nlist * reader.d
  pq_centroids_length : reader.pq.centroids.length = reader.pq.d * reader.pq.ksub

theorem openReader_header {reader : SeekRead} {opened : IVFPQIndexReader K}
    (h : openReader reader = .ok opened) :
    opened.HeaderShape ∧ opened.reader = reader ∧ opened.loaded = false ∧
      opened.precomputedTable = none := by
  simp only [openReader, openWithHeader, accepted] at h
  obtain ⟨header, -, -, -, d, -, nlist, hnlist, m, hm, ksub, -, dsub, hdsub, hksub, hd, -,
    metric, -, -, -, -, -, hflags, rfl⟩ := h
  have hksub : ksub = 16 ∨ ksub = 256 := by omega
  refine ⟨⟨validatePositiveI32_pos hnlist, validatePositiveI32_pos hm,
    validatePositiveI32_pos hdsub,
    not_not.mp hd, rfl, rfl, ?_, ?_, decide_eq_true ?_⟩, rfl, rfl, rfl⟩
  · rcases hksub with rfl | rfl
    · exact Or.inl rfl
    · exact Or.inr rfl
  · rcases hksub with rfl | rfl <;> rfl
  · exact requiredFlags_transposed (not_not.mp hflags)

variable [Scalar K]

theorem ensureLoaded_shape {self loaded : IVFPQIndexReader K} (hshape : self.HeaderShape)
    (hnew : self.loaded = false) (h : self.ensureLoaded = .ok loaded) :
    loaded.LoadedShape ∧ loaded.reader = self.reader ∧ loaded.d = self.d ∧
      loaded.nlist = self.nlist ∧ loaded.metric = self.metric ∧
      loaded.precomputedTable = self.precomputedTable := by
  rw [ensureLoaded, if_neg (by rw [hnew]; decide)] at h
  simp only [sectionSize, checkVectorCount, accepted, checkedSectionSize_eq_ok,
    Option.bind_eq_some_iff] at h
  obtain ⟨-, -, _, ⟨rfl, -⟩, _, ⟨rfl, -⟩, _, ⟨rfl, -⟩, rotationBytes, -, _, ⟨rfl, -⟩, _, ⟨rfl, -⟩,
    _, ⟨rfl, -⟩, _, ⟨_, ⟨_, ⟨rfl, -⟩, rfl, -⟩, rfl, -⟩, metadata, hmetadata, rotation, -, centroids,
    hcentroids, pqCentroids, -, hpqCentroids, ⟨entries, total⟩, -, -, rfl⟩ := h
  have hlength := self.reader.pread_length hmetadata
  have hcentroids := bytesToF32Vec_length hcentroids
  rw [List.length_take, List.length_drop, hlength] at hcentroids
  refine ⟨⟨⟨hshape.nlist_pos, hshape.m_pos, hshape.dsub_pos, hshape.d_eq, hshape.pq_d, hshape.pq_m,
    hshape.nbits_eq, hshape.ksub_eq, hshape.transposed⟩, rfl, ?_, ?_⟩, rfl, rfl, rfl, rfl, rfl⟩
  · show (centroids.map Scalar.ofF32).length = self.nlist * self.d
    rw [List.length_map]
    omega
  · show (pqCentroids.map Scalar.ofF32).length = self.pq.d * self.pq.ksub
    rw [List.length_map]
    exact not_not.mp hpqCentroids

end IVFPQIndexReader

end PaimonVindex
