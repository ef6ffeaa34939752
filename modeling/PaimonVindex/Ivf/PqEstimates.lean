import PaimonVindex.Lib.ListDot
import PaimonVindex.Ivf.PqOpened
import PaimonVindex.Ivf.PqRange

/-! What the tables of an IVF-PQ search add up to in exact arithmetic: the
distance of the prepared query to the decoded row. One of them does not, for
residual codes under the inner product. -/

namespace PaimonVindex

open Checked VectorKernels ListDot List

/-- The kernels compute what they are named for. -/
class ExactKernels (K : Type) [Field K] [LinearOrder K] [VectorKernels K] : Prop where
  innerProduct_eq : ∀ x y : List K, innerProduct x y = dot x y
  ipBatch_eq : ∀ x y : List K, ipBatch x y = dot x y
  sgemmEntry_eq : ∀ x y : List K, sgemmEntry x y = dot x y
  l2sqr_eq : ∀ x y : List K, l2sqr x y = squaredDistance x y
  l2sqrFour_eq : ∀ x y : List K, l2sqrFour x y = squaredDistance x y
  normL2sqr_eq : ∀ x : List K, normL2sqr x = dot x x
  maxZero_eq : ∀ x : K, maxZero x = max x 0
  two_mul_half : (2 : K) * half = 1
  normalize_length : ∀ x : List K, (normalize x).length = x.length

instance : ExactKernels Rat where
  innerProduct_eq _ _ := rfl
  ipBatch_eq _ _ := rfl
  sgemmEntry_eq _ _ := rfl
  l2sqr_eq _ _ := rfl
  l2sqrFour_eq _ _ := rfl
  normL2sqr_eq _ := rfl
  maxZero_eq _ := rfl
  two_mul_half := by decide +kernel
  normalize_length _ := rfl

theorem mem_matchingRows {ids : List Int64} {filter : Option RowIdFilter} {rows : List Nat}
    (h : matchingRows ids filter = some rows) {position : Nat} (hposition : position ∈ rows) :
    position < ids.length := by
  obtain ⟨contains, -, rfl⟩ := Option.map_eq_some_iff.mp h
  exact mem_range.mp (mem_of_mem_filter hposition)

/-- The code of a row in the layout of the file, one column after the other. -/
def columnCode (codes : List UInt8) (count position sub : Nat) : Nat :=
  (codes.getD (sub * count + position) 0).toNat

theorem row_getElem {codes : List UInt8} {count m position sub : Nat}
    (hcodes : codes.length = count * m) (hposition : position < count) (hsub : sub < m) :
    (row codes count sub)[position]? = some (codes.getD (sub * count + position) 0) := by
  have hle : (sub + 1) * count ≤ m * count := Nat.mul_le_mul_right count hsub
  rw [Nat.succ_mul, Nat.mul_comm m] at hle
  have hlt : sub * count + position < codes.length := by omega
  rw [row, List.getElem?_take_of_lt hposition, List.getElem?_drop, getD_eq_getElem _ _ hlt,
    List.getElem?_eq_getElem hlt]

section Columns

variable {K : Type} [AddCommMonoid K]

theorem foldl_columns_getElem (simTable : Table K) {codes : List UInt8} {count m position : Nat}
    (hcodes : codes.length = count * m) (hposition : position < count) (subs : List Nat)
    (hsubs : ∀ sub ∈ subs, sub < m) {dists : List K} {value : K}
    (hvalue : dists[position]? = some value) :
    (subs.foldl (fun dists sub => List.zipWith (fun dist code => dist + simTable sub code.toNat)
      dists (row codes count sub)) dists)[position]? =
      some (value +
        (subs.map fun sub => simTable sub (columnCode codes count position sub)).sum) := by
  induction subs generalizing dists value with
  | nil => rw [foldl_nil, hvalue, map_nil, sum_nil, add_zero]
  | cons sub subs ih =>
    have hcolumn := row_getElem hcodes hposition (hsubs sub mem_cons_self)
    have hnext : (List.zipWith (fun dist code => dist + simTable sub code.toNat) dists
        (row codes count sub))[position]? =
        some (value + simTable sub (columnCode codes count position sub)) := by
      rw [List.getElem?_zipWith, hvalue, hcolumn]
      rfl
    rw [foldl_cons, ih (fun x hx => hsubs x (mem_cons_of_mem _ hx)) hnext, map_cons,
      sum_cons, add_assoc]

theorem transposedDistances_getD (simTable : Table K) {codes : List UInt8} {count m position : Nat}
    (hcodes : codes.length = count * m) (hm : 0 < m) (hposition : position < count) (dis0 : K) :
    (transposedDistances simTable codes count m dis0).getD position 0 =
      dis0 + ((List.range m).map fun sub =>
        simTable sub (columnCode codes count position sub)).sum := by
  have hfirst : ((row codes count 0).map fun code => dis0 + simTable 0 code.toNat)[position]? =
      some (dis0 + simTable 0 (columnCode codes count position 0)) := by
    rw [List.getElem?_map, row_getElem hcodes hposition hm]
    rfl
  have hsum := foldl_columns_getElem simTable hcodes hposition (List.range' 1 (m - 1))
    (fun sub hsub => by have := mem_range'_1.mp hsub; omega) hfirst
  have hrange : List.range m = 0 :: List.range' 1 (m - 1) := by
    obtain ⟨n, rfl⟩ := Nat.exists_eq_add_of_lt hm
    rw [range_eq_range', Nat.zero_add, List.range'_succ]
    rfl
  rw [transposedDistances, getD_eq_getElem?_getD, hsum, hrange, map_cons, sum_cons,
    add_assoc]
  rfl

theorem transposedDistance_eq (simTable : Table K) (codes : List UInt8) (count m : Nat) (dis0 : K)
    (position : Nat) : transposedDistance simTable codes count m dis0 position =
      dis0 + ((List.range m).map fun sub =>
        simTable sub (columnCode codes count position sub)).sum :=
  foldl_add_eq_sum _ _ _

end Columns

theorem row_length {K : Type} {x : List K} {m w i : Nat} (hx : x.length = m * w) (hi : i < m) :
    (row x w i).length = w := by
  have hle := Nat.mul_le_mul_right w hi
  rw [Nat.succ_mul] at hle
  rw [row, length_take, length_drop]
  omega

namespace ProductQuantizer

section Decode

variable {K : Type}

def decode (pq : ProductQuantizer K) (codes : List UInt8) (count position : Nat) : List K :=
  (List.range pq.m).flatMap fun sub => pq.codeword sub (columnCode codes count position sub)

structure Trained (pq : ProductQuantizer K) : Prop where
  m_pos : 0 < pq.m
  chunks : pq.d = pq.m * pq.dsub
  nbits_eq : pq.nbits = 8
  centroids_length : pq.centroids.length = pq.d * pq.ksub

variable {pq : ProductQuantizer K} {codes : List UInt8} {count position : Nat}

theorem Trained.codeword_length (h : pq.Trained) {sub : Nat} (hsub : sub < pq.m) :
    (pq.codeword sub (columnCode codes count position sub)).length = pq.dsub := by
  have hcode : columnCode codes count position sub < pq.ksub := by
    rw [ksub, h.nbits_eq]
    exact UInt8.toNat_lt _
  have hrow : sub * pq.ksub + columnCode codes count position sub < pq.m * pq.ksub := by
    have := Nat.mul_le_mul_right pq.ksub hsub
    rw [Nat.succ_mul] at this
    omega
  refine row_length ?_ hrow
  rw [h.centroids_length, h.chunks, Nat.mul_right_comm]

theorem Trained.decode_length (h : pq.Trained) :
    (pq.decode codes count position).length = pq.d := by
  rw [decode, Words.flatMap_length_of_width fun sub hsub =>
    h.codeword_length (mem_range.mp hsub), length_range, h.chunks]

theorem Trained.sum_chunks [AddCommMonoid K] (h : pq.Trained) (f : K → K → K) {x : List K}
    (hx : x.length = pq.d) :
    ((List.range pq.m).map fun sub => (List.zipWith f (row x pq.dsub sub)
      (pq.codeword sub (columnCode codes count position sub))).sum).sum =
      (List.zipWith f x (pq.decode codes count position)).sum :=
  (sum_zipWith_chunks f (hx.trans h.chunks) fun _ hsub => h.codeword_length hsub).symm

theorem Trained.sum_dot [Field K] (h : pq.Trained) {x : List K} (hx : x.length = pq.d) :
    ((List.range pq.m).map fun sub => dot (row x pq.dsub sub)
      (pq.codeword sub (columnCode codes count position sub))).sum =
      dot x (pq.decode codes count position) :=
  h.sum_chunks _ hx

theorem Trained.sum_neg_dot [Field K] (h : pq.Trained) {x : List K} (hx : x.length = pq.d) :
    ((List.range pq.m).map fun sub => -dot (row x pq.dsub sub)
      (pq.codeword sub (columnCode codes count position sub))).sum =
      -dot x (pq.decode codes count position) := by
  rw [← h.sum_dot hx, sum_neg, map_map]
  rfl

end Decode

variable {K : Type} [Field K] [LinearOrder K] [VectorKernels K] [ExactKernels K]
  {pq : ProductQuantizer K} {codes : List UInt8} {count position : Nat}

open ExactKernels

theorem distanceTable_product (pq : ProductQuantizer K) (x : List K) (sub code : Nat) :
    (if 4 ≤ pq.dsub then sgemmEntry (row x pq.dsub sub) (pq.codeword sub code)
      else ipBatch (row x pq.dsub sub) (pq.codeword sub code)) =
      dot (row x pq.dsub sub) (pq.codeword sub code) := by
  rw [sgemmEntry_eq, ipBatch_eq, ite_self]

theorem computeDistanceTable_l2 (pq : ProductQuantizer K) (x : List K) {metric : MetricType}
    (hmetric : metric ≠ .innerProduct) (sub code : Nat) :
    pq.computeDistanceTable x metric sub code =
      max (dot (row x pq.dsub sub) (row x pq.dsub sub) +
        dot (pq.codeword sub code) (pq.codeword sub code) -
        2 * dot (row x pq.dsub sub) (pq.codeword sub code)) 0 := by
  cases metric with
  | innerProduct => exact absurd rfl hmetric
  | l2 | cosine =>
    simp only [computeDistanceTable, distanceTable_product, normL2sqr_eq, maxZero_eq,
      one_add_one_eq_two]

theorem computeDistanceTable_ip (pq : ProductQuantizer K) (x : List K) (sub code : Nat) :
    pq.computeDistanceTable x .innerProduct sub code =
      -dot (row x pq.dsub sub) (pq.codeword sub code) := by
  simp only [computeDistanceTable, distanceTable_product]

theorem Trained.sum_distanceTable_l2 [IsStrictOrderedRing K] (h : pq.Trained) {x : List K}
    (hx : x.length = pq.d) {metric : MetricType} (hmetric : metric ≠ .innerProduct) :
    ((List.range pq.m).map fun sub => pq.computeDistanceTable x metric sub
      (columnCode codes count position sub)).sum =
      squaredDistance x (pq.decode codes count position) := by
  refine Eq.trans (congrArg List.sum (map_congr_left fun sub hsub => ?_)) (h.sum_chunks _ hx)
  have hsub := mem_range.mp hsub
  have hlen : (row x pq.dsub sub).length =
      (pq.codeword sub (columnCode codes count position sub)).length := by
    rw [h.codeword_length hsub, row_length (hx.trans h.chunks) hsub]
  -- The clamp at zero does nothing to a sum of squares.
  rw [computeDistanceTable_l2 pq x hmetric, ← squaredDistance_eq_dots hlen,
    max_eq_left (squaredDistance_nonneg _ _)]
  rfl

theorem Trained.sum_distanceTable_ip (h : pq.Trained) {x : List K} (hx : x.length = pq.d) :
    ((List.range pq.m).map fun sub => pq.computeDistanceTable x .innerProduct sub
      (columnCode codes count position sub)).sum = -dot x (pq.decode codes count position) := by
  simp only [computeDistanceTable_ip]
  exact h.sum_neg_dot hx

theorem Trained.sum_precomputedTable (h : pq.Trained) {q centroids : List K} {listId : Nat}
    (hq : q.length = pq.d) (hcentroid : (row centroids pq.d listId).length = pq.d) :
    ((List.range pq.m).map fun sub =>
      computePrecomputedTable centroids pq pq.d listId sub (columnCode codes count position sub) +
        -(1 + 1) * pq.computeInnerProductTable q sub (columnCode codes count position sub)).sum =
      dot (pq.decode codes count position) (pq.decode codes count position) +
        2 * dot (row centroids pq.d listId) (pq.decode codes count position) -
        2 * dot q (pq.decode codes count position) := by
  have hloop : ∀ x y : List K, loopProduct x y = dot x y := fun x y => by
    rw [loopProduct, foldl_add_eq_sum (fun a => a), zero_add, map_id']
    rfl
  have hnorm : ((List.range pq.m).map fun sub =>
      dot (pq.codeword sub (columnCode codes count position sub))
        (pq.codeword sub (columnCode codes count position sub))).sum =
      dot (pq.decode codes count position) (pq.decode codes count position) :=
    (sum_zipWith_flatMap _ _ fun _ _ => rfl).symm
  simp only [computePrecomputedTable, ProductQuantizer.computeInnerProductTable, normL2sqr_eq,
    ipBatch_eq, hloop, one_add_one_eq_two, sum_map_add, sum_map_mul_left, hnorm,
    h.sum_dot hcentroid, h.sum_dot hq]
  ring

end ProductQuantizer

namespace IVFPQIndexReader

section Ready

variable {K : Type} [Field K] [Scalar K] [VectorKernels K]

structure SearchReady (reader : IVFPQIndexReader K) : Prop where
  trained : reader.pq.Trained
  pq_d : reader.pq.d = reader.d
  pq_m : reader.pq.m = reader.m
  centroids_length : reader.quantizerCentroids.length = reader.nlist * reader.d
  transposed : reader.transposedCodes = true
  table : ∀ table, reader.precomputedTable = some table →
    table = computePrecomputedTable reader.quantizerCentroids reader.pq reader.d

theorem openReader_ready {reader : SeekRead} {opened self : IVFPQIndexReader K}
    (hopen : openReader reader = .ok opened) (hload : opened.ensureLoaded = .ok self)
    (hbits : self.pq.nbits = 8) : self.SearchReady := by
  obtain ⟨hheader, -, hnew, htable⟩ := openReader_header hopen
  obtain ⟨hshape, -, -, -, -, hkept⟩ := ensureLoaded_shape hheader hnew hload
  refine ⟨⟨hshape.pq_m ▸ hshape.m_pos, ?_, hbits, hshape.pq_centroids_length⟩, hshape.pq_d,
    hshape.pq_m, hshape.centroids_length, hshape.transposed, fun table h => ?_⟩
  · show self.pq.d = self.pq.m * (self.pq.d / self.pq.m)
    rw [hshape.pq_d, hshape.pq_m, hshape.d_eq, Nat.mul_div_cancel_left _ hshape.m_pos]
  · rw [hkept, htable] at h
    cases h

theorem optimizeForSearch_ready {reader : SeekRead} {opened self : IVFPQIndexReader K}
    (hopen : openReader reader = .ok opened) (hload : opened.optimizeForSearch = .ok self)
    (hbits : self.pq.nbits = 8) : self.SearchReady := by
  simp only [optimizeForSearch, bind_eq_ok] at hload
  obtain ⟨loaded, hloaded, hload⟩ := hload
  split at hload
  · simp only [pure_ok_iff] at hload
    subst hload
    have hready := openReader_ready hopen hloaded hbits
    exact ⟨hready.trained, hready.pq_d, hready.pq_m, hready.centroids_length, hready.transposed,
      fun table htable => (Option.some.inj htable).symm⟩
  · simp only [pure_ok_iff] at hload
    subst hload
    exact openReader_ready hopen hloaded hbits

end Ready

section Values

variable {K : Type} [Field K]

def decodedRow (self : IVFPQIndexReader K) (listId : Nat) (codes : List UInt8)
    (count position : Nat) : List K :=
  if self.byResidual then
    List.zipWith (· + ·) (self.coarseCentroid listId) (self.pq.decode codes count position)
  else self.pq.decode codes count position

/-- The distance that the estimates of both searches are for. -/
def metricDistance (metric : MetricType) (q vector : List K) : K :=
  match metric with
  | .l2 | .cosine => squaredDistance q vector
  | .innerProduct => -dot q vector

theorem fvecMadd_neg_one (x y : List K) : fvecMadd x y (-1) = List.zipWith (· - ·) x y := by
  have hentry : (fun a b : K => a + -1 * b) = fun a b => a - b := by
    funext a b
    ring
  rw [fvecMadd, hentry]

theorem metricDistance_ne_ip {metric : MetricType} (hmetric : metric ≠ .innerProduct)
    (x y : List K) : metricDistance metric x y = squaredDistance x y := by
  cases metric with
  | innerProduct => exact absurd rfl hmetric
  | l2 | cosine => rfl

variable [VectorKernels K] {self : IVFPQIndexReader K} {q : List K}
  {listId count position : Nat} {codes : List UInt8}

def topkEstimate (self : IVFPQIndexReader K) (q : List K) (list : ProbedList K)
    (codes : List UInt8) (count position : Nat) : K :=
  list.dis0 + ((List.range self.pq.m).map fun sub =>
    self.fillReaderSimTable q list.listId sub (columnCode codes count position sub)).sum

theorem SearchReady.scannedRows (h : self.SearchReady) (q : List K) (filter : Option RowIdFilter)
    (list : ProbedList K) {ids : List Int64} {codes : List UInt8}
    (hcodes : codes.length = ids.length * self.m) : self.scannedRows q filter list ids codes =
      (scannedPositions ids filter).map fun position =>
        (self.topkEstimate q list codes ids.length position, ids.getD position 0) := by
  have hnot4 : self.pq.nbits ≠ 4 := by
    rw [h.trained.nbits_eq]
    decide
  have hm : 0 < self.m := h.pq_m ▸ h.trained.m_pos
  have hdense : ∀ position < ids.length,
      (transposedDistances (self.fillReaderSimTable q list.listId)
      codes ids.length self.m list.dis0).getD position 0 =
        self.topkEstimate q list codes ids.length position := fun position hposition => by
    rw [transposedDistances_getD _ hcodes hm hposition, topkEstimate, h.pq_m]
  rw [IVFPQIndexReader.scannedRows, scanReaderCodes, if_neg hnot4, if_pos h.transposed]
  split
  case isTrue hnone => rw [scannedPositions, hnone, Option.getD_some, map_nil]
  case isFalse =>
    unfold scanCodesTransposed
    rw [scannedPositions]
    cases hrows : matchingRows ids filter with
    | none =>
      refine map_congr_left fun position hposition => ?_
      dsimp only
      rw [hdense position (mem_range.mp hposition)]
    | some rows =>
      dsimp only
      split
      · refine map_congr_left fun position _ => ?_
        rw [transposedDistance_eq, topkEstimate, h.pq_m]
      · refine map_congr_left fun position hposition => ?_
        rw [hdense position (mem_matchingRows hrows hposition)]

theorem SearchReady.coarseCentroid_length (h : self.SearchReady)
    (hlist : listId < self.nlist) : (self.coarseCentroid listId).length = self.pq.d := by
  rw [h.pq_d]
  exact row_length h.centroids_length hlist

/-- The part of the distance that the top-k scan leaves out of a row. -/
def missingProduct (self : IVFPQIndexReader K) (q : List K) (listId : Nat) (codes : List UInt8)
    (count position : Nat) : K :=
  if self.metric = .innerProduct ∧ self.byResidual then
    dot (self.coarseCentroid listId) q +
      dot (self.coarseCentroid listId) (self.pq.decode codes count position)
  else 0

theorem SearchReady.pqRangeDistance_eq (h : self.SearchReady) (table : Table K)
    (ipOffset : Option K) (count : Nat) (codes : List UInt8) (position : Nat) :
    pqRangeDistance self.pq table self.metric ipOffset count codes self.transposedCodes position =
      (((List.range self.pq.m).map fun sub =>
        table sub (columnCode codes count position sub)).sum + ipOffset.getD 0) *
        (if self.metric = .cosine then half else 1) := by
  have hnot4 : self.pq.nbits ≠ 4 := by
    rw [h.trained.nbits_eq]
    decide
  cases ipOffset with
  | none =>
    simp only [pqRangeDistance, if_neg hnot4, h.transposed, if_true, foldl_add_eq_sum, zero_add,
      Option.getD_none, add_zero, mul_ite, mul_one]
    rfl
  | some offset =>
    have hfirst := sum_range_add_first (fun sub => table sub (columnCode codes count position sub))
      offset h.trained.m_pos
    rw [Option.getD_some, ← hfirst]
    simp only [pqRangeDistance, if_neg hnot4, h.transposed, if_true, foldl_add_eq_sum, zero_add,
      mul_ite, mul_one]
    rfl

theorem SearchReady.metricDistance_ip (h : self.SearchReady)
    (hlist : listId < self.nlist) :
    metricDistance .innerProduct q (self.decodedRow listId codes count position) =
      -dot q (self.pq.decode codes count position) +
        (self.rangeCentroid listId).elim 0 (fun centroid => -dot q centroid) := by
  rw [decodedRow, rangeCentroid]
  by_cases hresidual : self.byResidual = true
  · rw [if_pos hresidual, if_pos hresidual, metricDistance, Option.elim_some,
      dot_add ((h.coarseCentroid_length hlist).trans h.trained.decode_length.symm)]
    ring
  · rw [if_neg hresidual, if_neg hresidual, metricDistance, Option.elim_none, add_zero]

variable [LinearOrder K] [ExactKernels K]

theorem probed_start [Scalar K] {nprobe : Nat} {probe : K × Nat}
    (hprobe : probe ∈ self.probe q nprobe) {list : ProbedList K}
    (hlist : self.probedList probe = some list) : list.listId < self.nlist ∧ list.dis0 =
      if self.usablePrecomputedTable.isSome then squaredDistance q (self.coarseCentroid list.listId)
      else 0 := by
  rw [probedList] at hlist
  split at hlist
  · cases hlist
  · cases hlist
    obtain ⟨c, -, rfl⟩ := mem_map.mp ((mergeSort_perm _ _).mem_iff.mp
      (mem_of_mem_take hprobe))
    refine ⟨mem_findTopk_lt hprobe, ?_⟩
    dsimp only
    congr 1
    rw [coarseDistance, ExactKernels.l2sqr_eq, ExactKernels.l2sqrFour_eq, ite_self]
    rfl

theorem SearchReady.sum_distanceTable [IsStrictOrderedRing K] (h : self.SearchReady) {x : List K}
    (hx : x.length = self.pq.d) : ((List.range self.pq.m).map fun sub =>
      self.pq.computeDistanceTable x self.metric sub (columnCode codes count position sub)).sum =
      metricDistance self.metric x (self.pq.decode codes count position) := by
  by_cases hip : self.metric = .innerProduct
  · rw [hip]
    exact h.trained.sum_distanceTable_ip hx
  · rw [h.trained.sum_distanceTable_l2 hx hip, metricDistance_ne_ip hip]

theorem SearchReady.topkEstimate_eq [IsStrictOrderedRing K] [Scalar K] (h : self.SearchReady)
    (hq : q.length = self.d) {nprobe : Nat} {probe : K × Nat} (hprobe : probe ∈ self.probe q nprobe)
    {list : ProbedList K} (hlist : self.probedList probe = some list) (codes : List UInt8)
    (count position : Nat) :
    self.topkEstimate q list codes count position =
      metricDistance self.metric q (self.decodedRow list.listId codes count position) +
        self.missingProduct q list.listId codes count position := by
  obtain ⟨hlt, hdis0⟩ := probed_start hprobe hlist
  have hq : q.length = self.pq.d := hq.trans h.pq_d.symm
  have hc := h.coarseCentroid_length hlt
  have hy : (self.pq.decode codes count position).length = self.pq.d := h.trained.decode_length
  rw [topkEstimate, hdis0]
  cases htable : self.usablePrecomputedTable with
  | some table =>
    have hentry : ∀ sub code, self.fillReaderSimTable q list.listId sub code =
        table list.listId sub code + -(1 + 1) * self.pq.computeInnerProductTable q sub code :=
      fun sub code => by rw [fillReaderSimTable, htable]
    rw [usablePrecomputedTable] at htable
    split at htable
    case isFalse => cases htable
    case isTrue huse =>
      have hnot : ¬ (self.metric = .innerProduct ∧ self.byResidual = true) := fun hip => by
        rw [huse.1] at hip
        cases hip.1
      rw [missingProduct, if_neg hnot, huse.1, decodedRow, if_pos huse.2, Option.isSome_some,
        if_pos rfl, add_zero]
      have hcentroid : self.coarseCentroid list.listId =
          row self.quantizerCentroids self.pq.d list.listId := by rw [h.pq_d, coarseCentroid]
      simp only [hentry, h.table table htable, ← h.pq_d]
      rw [h.trained.sum_precomputedTable hq (hcentroid ▸ hc), ← hcentroid]
      exact (squaredDistance_add (hq.trans hc.symm) (hq.trans hy.symm)).symm
  | none =>
    rw [Option.isSome_none, if_neg Bool.false_ne_true, zero_add]
    by_cases hresidual : self.byResidual = true
    · have hx : (List.zipWith (· - ·) q (self.coarseCentroid list.listId)).length = self.pq.d := by
        rw [length_zipWith, hq, hc, Nat.min_self]
      simp only [fillReaderSimTable, htable, if_pos hresidual, fvecMadd_neg_one]
      rw [h.sum_distanceTable hx, decodedRow, if_pos hresidual, missingProduct]
      by_cases hip : self.metric = .innerProduct
      · rw [if_pos ⟨hip, hresidual⟩, hip, metricDistance, metricDistance,
          dot_sub (hq.trans hc.symm), dot_add (hc.trans hy.symm),
          dot_comm (self.coarseCentroid list.listId) q]
        ring
      · rw [if_neg (fun hboth => hip hboth.1), metricDistance_ne_ip hip, metricDistance_ne_ip hip,
          squaredDistance_sub, add_zero]
    · simp only [fillReaderSimTable, htable, if_neg hresidual]
      rw [h.sum_distanceTable hq, decodedRow, if_neg hresidual, missingProduct,
        if_neg (fun hboth => hresidual hboth.2), add_zero]

theorem buildPqRangeTable_l2 (pq : ProductQuantizer K) {x : List K} {metric : MetricType}
    (hmetric : metric ≠ .innerProduct) (centroid : Option (List K)) (sub code : Nat) :
    buildPqRangeTable pq x metric centroid sub code = squaredDistance
      (row (centroid.elim x (List.zipWith (· - ·) x)) pq.dsub sub) (pq.codeword sub code) := by
  have hfilter : (centroid.filter fun _ => decide (metric ≠ .innerProduct)) = centroid := by
    rw [decide_eq_true hmetric]
    cases centroid <;> rfl
  rw [← ExactKernels.l2sqr_eq, buildPqRangeTable]
  dsimp only
  rw [hfilter]
  cases centroid <;> cases metric <;> first | rfl | exact absurd rfl hmetric

theorem buildPqRangeTable_ip (pq : ProductQuantizer K) (x : List K) (centroid : Option (List K))
    (sub code : Nat) : buildPqRangeTable pq x .innerProduct centroid sub code =
      if sub = 0 then -dot (row x pq.dsub sub) (pq.codeword sub code) +
        centroid.elim 0 (fun centroid => -dot x centroid)
      else -dot (row x pq.dsub sub) (pq.codeword sub code) := by
  have hfilter : (centroid.filter fun _ => decide (MetricType.innerProduct ≠ .innerProduct)) =
      none := by
    cases centroid <;> rfl
  rw [buildPqRangeTable]
  dsimp only
  rw [hfilter, Option.elim_none]
  simp only [ExactKernels.innerProduct_eq]
  cases centroid with
  | none => rw [Option.elim_none, add_zero, ite_self]
  | some centroid =>
    rw [Option.elim_some]
    simp only [true_and]

theorem SearchReady.sum_rangeTable_l2 (h : self.SearchReady) (hq : q.length = self.pq.d)
    (hlist : listId < self.nlist) (hip : self.metric ≠ .innerProduct) :
    ((List.range self.pq.m).map fun sub =>
      buildPqRangeTable self.pq q self.metric (self.rangeCentroid listId) sub
        (columnCode codes count position sub)).sum =
      squaredDistance q (self.decodedRow listId codes count position) := by
  simp only [buildPqRangeTable_l2 _ hip, rangeCentroid, decodedRow]
  by_cases hresidual : self.byResidual = true
  · have hx : (List.zipWith (· - ·) q (self.coarseCentroid listId)).length = self.pq.d := by
      rw [length_zipWith, hq, h.coarseCentroid_length hlist, Nat.min_self]
    rw [if_pos hresidual, if_pos hresidual, ← squaredDistance_sub]
    exact h.trained.sum_chunks _ hx
  · rw [if_neg hresidual, if_neg hresidual]
    exact h.trained.sum_chunks _ hq

theorem SearchReady.sum_rangeTable_ip (h : self.SearchReady) (hq : q.length = self.pq.d)
    (centroid : Option (List K)) :
    ((List.range self.pq.m).map fun sub => buildPqRangeTable self.pq q .innerProduct centroid sub
        (columnCode codes count position sub)).sum =
      -dot q (self.pq.decode codes count position) +
        centroid.elim 0 (fun centroid => -dot q centroid) := by
  simp only [buildPqRangeTable_ip]
  rw [sum_range_add_first (fun sub => -dot (row q self.pq.dsub sub)
    (self.pq.codeword sub (columnCode codes count position sub))) _ h.trained.m_pos,
    h.trained.sum_neg_dot hq]

theorem SearchReady.rangeEstimate_eq (h : self.SearchReady) (hq : q.length = self.d)
    (queryIndex : Nat) {scan : RangeScan} (hlist : scan.listId < self.nlist) (position : Nat) :
    (if self.metric = .cosine then 2 else 1) * self.rangeEstimate q queryIndex scan position =
      metricDistance self.metric q
        (self.decodedRow scan.listId scan.codes scan.ids.length position) := by
  have hq : q.length = self.pq.d := hq.trans h.pq_d.symm
  have hscale : (if self.metric = .cosine then (2 : K) else 1) *
      (if self.metric = .cosine then half else 1) = 1 := by
    by_cases hcosine : self.metric = .cosine
    · rw [if_pos hcosine, if_pos hcosine, ExactKernels.two_mul_half]
    · rw [if_neg hcosine, if_neg hcosine, mul_one]
  rw [rangeEstimate, h.pqRangeDistance_eq, mul_left_comm, hscale, mul_one]
  have hkeep : ((self.rangeCentroid scan.listId).filter fun _ => true) =
      self.rangeCentroid scan.listId := by
    cases self.rangeCentroid scan.listId <;> rfl
  have hdrop : ((self.rangeCentroid scan.listId).filter fun _ => false) = none := by
    cases self.rangeCentroid scan.listId <;> rfl
  by_cases hip : self.metric = .innerProduct
  · rw [hip, h.sum_rangeTable_ip hq, h.metricDistance_ip hlist]
    by_cases hcached : queryIndex < self.rangeCachedQueries scan.streamed
    · simp only [hcached, true_and, not_true_eq_false, decide_true, decide_false, hkeep, hdrop,
        ExactKernels.innerProduct_eq, Option.elim_none, add_zero]
      cases self.rangeCentroid scan.listId <;> rfl
    · simp only [hcached, false_and, not_false_eq_true, decide_true, decide_false, hkeep, hdrop,
        Option.map_none, Option.getD_none, add_zero]
  · simp only [hip, and_false, not_false_eq_true, decide_true, decide_false, hkeep, hdrop,
      Option.map_none, Option.getD_none, add_zero]
    rw [h.sum_rangeTable_l2 hq hlist hip, metricDistance_ne_ip hip]

theorem prepareQuery_length {query : List K}
    (hquery : query.length = self.d) : (self.prepareQuery query).length = self.d := by
  rw [prepareQuery]
  cases self.rotation with
  | none =>
    dsimp only
    split
    · rw [ExactKernels.normalize_length, hquery]
    · exact hquery
  | some rotation =>
    show (rotate rotation self.d _).length = self.d
    rw [rotate, length_map, length_range]

end Values

variable {K : Type} [Field K] [LinearOrder K] [IsStrictOrderedRing K] [VectorKernels K]
  [ExactKernels K]

/-- Top-k and range search give a row the same distance, the one to its decoded
vector, unless the codes are residual and the metric is the inner product: then
the top-k scan takes the residual of the query and leaves out the centroid. -/
theorem topk_and_range_estimates_agree_iff [Scalar K] {reader : SeekRead}
    {opened self : IVFPQIndexReader K} (hopen : openReader reader = .ok opened)
    (hload : opened.ensureLoaded = .ok self ∨ opened.optimizeForSearch = .ok self)
    (hbits : self.pq.nbits = 8) {query q : List K} (hquery : query.length = self.d)
    (hprepare : self.prepareRangeQuery query = .ok q) {nprobe : Nat} {probe : K × Nat}
    (hprobe : probe ∈ self.probe (self.prepareQuery query) nprobe) {list : ProbedList K}
    (hlist : self.probedList probe = some list) {ids : List Int64} {codes : List UInt8}
    (hcodes : codes.length = ids.length * self.m) (streamed : Bool) (filter : Option RowIdFilter)
    {queryIndex i : Nat} {state : PqRangeQuery K (List (Int64 × K))}
    (hstate : self.RangeReached recordRow filter queryIndex q [] state)
    {queries : List (PqRangeQuery K (List (Int64 × K)))} (hbatch : queries[i]? = some state) :
    ∃ (topk range : Nat → K) (queries' : List (PqRangeQuery K (List (Int64 × K))))
      (state' : PqRangeQuery K (List (Int64 × K))),
      self.scannedRows (self.prepareQuery query) filter list ids codes =
        (scannedPositions ids filter).map (fun p => (topk p, ids.getD p 0)) ∧
      self.rangeScan recordRow filter queries ⟨list.listId, ids, codes, streamed⟩ = .ok queries' ∧
      queries'[i]? = some state' ∧ state'.collector = state.collector ++
        (scannedPositions ids filter).map (fun p => (ids.getD p 0, range p)) ∧
      ∀ p ∈ scannedPositions ids filter,
        (topk p = (if self.metric = .cosine then 2 else 1) * range p ∧
          topk p = metricDistance self.metric q (self.decodedRow list.listId codes ids.length p) ∧
          (if self.metric = .cosine then 2 else 1) * range p =
            metricDistance self.metric q (self.decodedRow list.listId codes ids.length p)) ↔
        (self.metric = .innerProduct ∧ self.byResidual →
          dot (self.coarseCentroid list.listId) q +
            dot (self.coarseCentroid list.listId) (self.pq.decode codes ids.length p) = 0) := by
  have hready : self.SearchReady := by
    rcases hload with hload | hload
    · exact openReader_ready hopen hload hbits
    · exact optimizeForSearch_ready hopen hload hbits
  have hlen := prepareQuery_length hquery
  rw [← prepareRangeQuery_ok hprepare] at hlen hprobe ⊢
  obtain ⟨hlt, -⟩ := probed_start hprobe hlist
  obtain ⟨hof, hindex⟩ := hstate.queryOf
  obtain ⟨queries', hscan⟩ : ∃ queries', self.rangeScan recordRow filter queries
      ⟨list.listId, ids, codes, streamed⟩ = .ok queries' := rangeScan_recordRow filter _ queries
  obtain ⟨hi, hget⟩ := List.getElem?_eq_some_iff.mp hbatch
  have hi' : i < queries'.length := by
    rw [← (rangeScan_ok hscan).length_eq]
    exact hi
  have hstate' := List.getElem?_eq_getElem hi'
  obtain ⟨-, -, hrows⟩ := rangeScan_getElem hscan hbatch hstate' hof
  rw [foldlM_recordRow] at hrows
  refine ⟨self.topkEstimate q list codes ids.length,
    self.rangeEstimate q state.queryIndex ⟨list.listId, ids, codes, streamed⟩,
    queries', queries'[i],
    hready.scannedRows q filter list hcodes, hscan, hstate', (Except.ok.inj hrows).symm,
    fun p _ => ?_⟩
  have htopk := hready.topkEstimate_eq hlen hprobe hlist codes ids.length p
  have hrange := @SearchReady.rangeEstimate_eq _ _ _ _ _ _ _ hready hlen state.queryIndex
    ⟨list.listId, ids, codes, streamed⟩ hlt p
  rw [hrange, htopk, missingProduct]
  by_cases hwrong : self.metric = .innerProduct ∧ self.byResidual = true
  · simp [hwrong]
  · simp [hwrong]

section ProductFile

/-- Byte codes of one chunk of width one, residual under the inner product: one
row in one list, the centroid and all codewords equal to one. -/
def productFile : List UInt8 :=
  u32Bytes magic ++ u32Bytes version ++ i32Bytes 1 ++ i32Bytes 1 ++ i32Bytes 1 ++ i32Bytes 256 ++
    i32Bytes 1 ++ u32Bytes MetricType.innerProduct.code ++ i64Bytes 1 ++
    u32Bytes (requiredFlags ||| flagByResidual) ++ List.replicate 20 0 ++
    f32SliceBytes (List.replicate 257 ⟨0x3F800000⟩) ++ ListEntry.toBytes ⟨1108, 1, 1⟩ ++
    i64Bytes 7 ++ i32Bytes 1 ++ [0, 0]

abbrev ProductTables (self : IVFPQIndexReader Rat) : Prop :=
  (self.metric = .innerProduct ∧ self.byResidual = true ∧ self.rotation = none) ∧
    (self.d = 1 ∧ self.m = 1 ∧ self.nlist = 1 ∧ self.quantizerCentroids = [1]) ∧
    (self.pq.d = 1 ∧ self.pq.m = 1 ∧ self.pq.nbits = 8 ∧
      self.pq.centroids = List.replicate 256 1) ∧
    (self.entry 0).rows = 1 ∧ (self.readInvertedListPayloads [0]).toOption.map
      (·.map fun list => (list.ids, list.codes)) = some [([7], [0])]

theorem productFile_opens : ∃ opened self : IVFPQIndexReader Rat,
    openReader (SeekRead.ofBytes productFile 1) = .ok opened ∧ opened.ensureLoaded = .ok self ∧
      ProductTables self := by
  have hopens : (openReader (SeekRead.ofBytes productFile 1) :
      IoResult (IVFPQIndexReader Rat)).toOption.any (fun opened =>
        opened.ensureLoaded.toOption.any fun self => decide (ProductTables self)) = true := by
    decide +kernel
  obtain ⟨opened, hopen, hloads⟩ := exists_ok_of_any hopens
  obtain ⟨self, hload, htables⟩ := exists_ok_of_any hloads
  exact ⟨opened, self, hopen, hload, of_decide_eq_true htables⟩

variable {self : IVFPQIndexReader Rat}

theorem ProductTables.prepareRangeQuery (h : ProductTables self) (x : Rat) :
    self.prepareRangeQuery [x] = .ok [x] := by
  obtain ⟨⟨hmetric, -, hrotation⟩, -⟩ := h
  rw [IVFPQIndexReader.prepareRangeQuery, prepareRangeQueries, hmetric, if_pos (by decide),
    pure_eq_ok, ok_bind, hrotation]
  rfl

theorem ProductTables.prepareQuery (h : ProductTables self) (x : Rat) :
    self.prepareQuery [x] = [x] :=
  (prepareRangeQuery_ok (ProductTables.prepareRangeQuery h x)).symm

theorem ProductTables.probed (h : ProductTables self) (x : Rat) : ∃ probe list,
    probe ∈ self.probe [x] 1 ∧ self.probedList probe = some list ∧ list.listId = 0 := by
  obtain ⟨-, ⟨-, -, hnlist, -⟩, -, hrows, -⟩ := h
  refine ⟨(coarseDistance [x] self.quantizerCentroids 1 self.d 0, 0), ⟨0, (self.entry 0).rows,
    if self.usablePrecomputedTable.isSome then coarseDistance [x] self.quantizerCentroids 1 self.d 0
    else 0⟩, ?_, ?_, rfl⟩
  · rw [probe, findTopk, rankedLists, hnlist, range_one, map_singleton,
      mergeSort_singleton]
    exact mem_singleton_self _
  · rw [probedList]
    exact if_neg (by rw [hrows]; decide)

theorem ProductTables.decodedRow (h : ProductTables self) :
    self.coarseCentroid 0 = [1] ∧ self.pq.decode [0] 1 0 = [1] ∧
      self.decodedRow 0 [0] 1 0 = [2] := by
  obtain ⟨⟨-, hresidual, -⟩, ⟨hd, -, -, hcentroids⟩, ⟨hpqd, hpqm, -, hwords⟩, -⟩ := h
  have hcentroid : self.coarseCentroid 0 = [1] := by
    rw [coarseCentroid, hcentroids, hd]
    rfl
  have hdecode : self.pq.decode [0] 1 0 = [1] := by
    rw [ProductQuantizer.decode, hpqm, range_one, flatMap_singleton,
      ProductQuantizer.codeword, ProductQuantizer.dsub, hwords, hpqd, hpqm, Nat.zero_mul]
    rfl
  refine ⟨hcentroid, hdecode, ?_⟩
  rw [IVFPQIndexReader.decodedRow, if_pos hresidual, hcentroid, hdecode]
  decide +kernel

theorem topk_and_range_estimates_agree_cancelled : ∃ opened self : IVFPQIndexReader Rat,
    openReader (SeekRead.ofBytes productFile 1) = .ok opened ∧ opened.ensureLoaded = .ok self ∧
      ∃ (list : ProbedList Rat) (topk range : Nat → Rat),
        self.scannedRows (self.prepareQuery [-1]) none list [7] [0] = [(topk 0, 7)] ∧
          topk 0 = range 0 := by
  obtain ⟨opened, self, hopen, hload, h⟩ := productFile_opens
  obtain ⟨probe, list, hprobe, hlist, hzero⟩ := ProductTables.probed h (-1)
  obtain ⟨hcentroid, hdecode, -⟩ := ProductTables.decodedRow h
  have hquery := ProductTables.prepareQuery h (-1)
  have hmetric := h.1.1
  have hcodes : ([0] : List UInt8).length = ([7] : List Int64).length * self.m := by
    rw [h.2.1.2.1]
    rfl
  obtain ⟨state, hstate⟩ : ∃ state, self.RangeReached recordRow none 0 [-1] [] state :=
    ⟨_, RangeReached.new⟩
  have hbatch : [state][0]? = some state := rfl
  obtain ⟨topk, range, -, -, hscanned, -, -, -, hagree⟩ := topk_and_range_estimates_agree_iff hopen
    (.inl hload) h.2.2.1.2.2.1 (by rw [h.2.1.1]; rfl) (ProductTables.prepareRangeQuery h (-1))
    (hquery.symm ▸ hprobe) hlist hcodes false none hstate hbatch
  refine ⟨opened, self, hopen, hload, list, topk, range, hscanned, ?_⟩
  have hsame := ((hagree 0 (by decide)).mpr fun _ => by
    rw [hzero, hcentroid]
    show dot [1] [-1] + dot [1] (self.pq.decode [0] 1 0) = 0
    rw [hdecode]
    decide +kernel).1
  rwa [hmetric, if_neg (by decide), one_mul] at hsame

/-- The top-k scan gives this row the distance 0, the range scan -2. -/
theorem residual_product_estimates_differ : ∃ opened self : IVFPQIndexReader Rat,
    openReader (SeekRead.ofBytes productFile 1) = .ok opened ∧ opened.ensureLoaded = .ok self ∧
      self.pq.nbits = 8 ∧ (self.readInvertedListPayloads [0]).toOption.map
        (·.map fun list => (list.ids, list.codes)) = some [([7], [0])] ∧
      self.prepareRangeQuery [1] = .ok [1] ∧ self.prepareQuery [1] = [1] ∧
      ∃ probe ∈ self.probe [1] 1, ∃ list, self.probedList probe = some list ∧ list.listId = 0 ∧
        self.scannedRows [1] none list [7] [0] = [(0, 7)] ∧
        ∃ state, self.rangeScan recordRow none [PqRangeQuery.new 0 [1] self.metric []]
          ⟨0, [7], [0], false⟩ = .ok [state] ∧ state.collector = [(7, -2)] := by
  obtain ⟨opened, self, hopen, hload, h⟩ := productFile_opens
  obtain ⟨probe, list, hprobe, hlist, hzero⟩ := ProductTables.probed h 1
  obtain ⟨hcentroid, hdecode, hrow⟩ := ProductTables.decodedRow h
  have hready := openReader_ready hopen hload h.2.2.1.2.2.1
  have hlen : ([1] : List Rat).length = self.d := h.2.1.1.symm
  have htopk := hready.topkEstimate_eq hlen hprobe hlist [0] 1 0
  have hrange := @SearchReady.rangeEstimate_eq _ _ _ _ _ _ _ hready hlen 0 ⟨0, [7], [0], false⟩
    (by rw [h.2.1.2.2.1]; decide) 0
  have hdistance : metricDistance self.metric [1] (self.decodedRow 0 [0] 1 0) = (-2 : Rat) := by
    rw [h.1.1, hrow]
    decide +kernel
  refine ⟨opened, self, hopen, hload, h.2.2.1.2.2.1, h.2.2.2.2, ProductTables.prepareRangeQuery h 1,
    ProductTables.prepareQuery h 1, probe, hprobe, list, hlist, hzero, ?_, ?_⟩
  · have hcodes : ([0] : List UInt8).length = ([7] : List Int64).length * self.m := by
      rw [h.2.1.2.1]
      rfl
    have hmissing : self.missingProduct [1] 0 [0] 1 0 = 2 := by
      rw [missingProduct, if_pos ⟨h.1.1, h.1.2.1⟩, hcentroid, hdecode]
      decide +kernel
    rw [hzero, hdistance, hmissing] at htopk
    rw [hready.scannedRows [1] none list hcodes]
    show [(self.topkEstimate [1] list [0] 1 0, (7 : Int64))] = [(0, 7)]
    rw [htopk]
    decide +kernel
  · obtain ⟨queries', hscan⟩ : ∃ queries', self.rangeScan recordRow none
        [PqRangeQuery.new 0 [1] self.metric []] ⟨0, [7], [0], false⟩ = .ok queries' :=
      rangeScan_recordRow none _ _
    have hstep := rangeScan_ok hscan
    obtain ⟨state, rest, hstate, hrest, rfl⟩ := forall₂_cons_left_iff.mp hstep
    rw [forall₂_nil_left_iff.mp hrest] at hscan
    obtain ⟨-, -, hrows⟩ := hstate [1] (rangeQueryOf_new self 0 [1] [])
    rw [foldlM_recordRow] at hrows
    refine ⟨state, hscan, ?_⟩
    rw [← Except.ok.inj hrows]
    show [((7 : Int64), self.rangeEstimate [1] 0 ⟨0, [7], [0], false⟩ 0)] = [(7, -2)]
    rw [h.1.1, if_neg (by decide), one_mul, ← h.1.1] at hrange
    rw [hrange]
    exact congrArg (fun value => [((7 : Int64), value)]) hdistance

end ProductFile

end IVFPQIndexReader

end PaimonVindex
