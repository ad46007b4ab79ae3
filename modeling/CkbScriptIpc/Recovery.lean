import CkbScriptIpc.Crypto
import CkbScriptIpc.Secp256k1

/-!
# Recovery of public keys

`secp256k1_recovery` of the crypto service. The crate `k256` is a parameter: it decodes
signatures, hashes and recovery ids, its points are a group on which the numbers modulo
the order act, and `Lawful` is what it documents of points and their coordinates.

`K256.recovery_law`: a key is returned exactly when there is a nonce point and the
solution of the equation is not the identity, and it is that solution; in all other cases
there is an error, and no panic.
-/

namespace CkbScriptIpc

open Interaction Secp256k1

abbrev Scalar := ZMod order

abbrev NonZeroScalar := {a : Scalar // a ≠ 0}

/-- What the service uses of `k256`. Field bytes stand for the number that they are, in
big-endian order, and `signatureFromSlice` is followed by `split_scalars`. -/
structure K256 where
  signatureFromSlice : Bytes → Option (NonZeroScalar × NonZeroScalar)
  bits2field : Bytes → Option Nat
  reduceBytes : Nat → Scalar
  RecoveryId : Type
  recoveryIdFromByte : UInt8 → Option RecoveryId
  isXReduced : RecoveryId → Bool
  isYOdd : RecoveryId → Bool
  Point : Type
  [group : AddCommGroup Point]
  [module : Module Scalar Point]
  generator : Point
  /-- The two coordinates of a point on the curve. -/
  coordinates : Point → Option (Nat × Nat)
  decompress : Nat → Bool → Option Point
  verifyingKeyFromAffine : Point → Option Point
  toSec1Bytes : Point → Bytes

/-- `checked_add` of two numbers of 256 bits. -/
def checkedAdd (a b : Nat) : Option Nat := if a + b < 2 ^ 256 then some (a + b) else none

theorem checkedAdd_eq_some_iff {a b x : Nat} :
    checkedAdd a b = some x ↔ x = a + b ∧ a + b < 2 ^ 256 := by
  unfold checkedAdd
  split
  · next hfits => rw [Option.some.injEq, and_iff_left hfits, eq_comm]
  · next hover => exact iff_of_false nofun fun h => hover h.2

namespace K256

variable (K : K256)

instance : AddCommGroup K.Point := K.group

instance : Module Scalar K.Point := K.module

/-- Decompression finds the point with the given coordinate and parity, the identity has no
coordinates, and it is the only point that is no key. -/
structure Lawful : Prop where
  decompress_iff : ∀ x odd R, K.decompress x odd = some R ↔
    ∃ y, K.coordinates R = some (x, y) ∧ decide (y % 2 = 1) = odd
  coordinates_zero : K.coordinates 0 = none
  fromAffine_iff : ∀ P Q, K.verifyingKeyFromAffine P = some Q ↔ Q = P ∧ P ≠ 0
  generator_ne : K.generator ≠ 0

/-- `r_bytes`, restored when the id says that it was reduced. -/
def rBytes (r : Scalar) (recoveryId : K.RecoveryId) : Option Nat :=
  if K.isXReduced recoveryId then checkedAdd r.val order else some r.val

/-- `none` is the panic of an `unwrap`. -/
def secp256k1Recovery (prehash signature : Bytes) (recoveryId : UInt8) :
    Option (Except CryptoError Bytes) :=
  match K.signatureFromSlice signature with
  | none => some (.error .invalidSig)
  | some (r, s) =>
    match K.bits2field prehash with
    | none => some (.error .invalidPrehash)
    | some fieldBytes =>
      let z := K.reduceBytes fieldBytes
      let recoveryId := K.recoveryIdFromByte recoveryId
      if recoveryId.isNone then some (.error .invalidRecoveryId)
      else recoveryId.bind fun recoveryId =>
        match K.rBytes r recoveryId with
        | none => some (.error .invalidRecoveryId)
        | some rBytes =>
          let R := K.decompress rBytes (K.isYOdd recoveryId)
          if R.isNone then some (.error .recoveryFailed)
          else R.bind fun R =>
            let rInv := r.1⁻¹
            let u1 := -(rInv * z)
            let u2 := rInv * s.1
            let pk := u1 • K.generator + u2 • R
            match K.verifyingKeyFromAffine pk with
            | none => some (.error .recoveryFailed)
            | some vk => some (.ok (K.toSec1Bytes vk))

/-! ## What is recovered -/

/-- The scalars and the id that the arguments stand for. -/
structure Decodes (prehash signature : Bytes) (recoveryId : UInt8) (r s : NonZeroScalar)
    (z : Scalar) (id : K.RecoveryId) : Prop where
  signature : K.signatureFromSlice signature = some (r, s)
  prehash : ∃ fieldBytes, K.bits2field prehash = some fieldBytes ∧ K.reduceBytes fieldBytes = z
  recoveryId : K.recoveryIdFromByte recoveryId = some id

/-- The point on the curve with the `x` coordinate `r`, or `r + order` when the id says that
it was reduced and the sum has 256 bits, and with the parity of the id. -/
def NoncePoint (r : NonZeroScalar) (id : K.RecoveryId) (R : K.Point) : Prop :=
  ∃ x y, K.coordinates R = some (x, y) ∧ decide (y % 2 = 1) = K.isYOdd id ∧
    if K.isXReduced id then x = r.1.val + order ∧ r.1.val + order < 2 ^ 256 else x = r.1.val

/-- The equation of the signature, in the group of `k256`. -/
def Solves (r s : NonZeroScalar) (z : Scalar) (R Q : K.Point) : Prop :=
  Equation K.generator z r.1 s.1 R Q

/-- What `secp256k1_recovery` does with its arguments. -/
structure RecoveryLaw (prehash signature : Bytes) (recoveryId : UInt8) : Prop where
  no_panic : ∃ res, K.secp256k1Recovery prehash signature recoveryId = some res
  returns_iff : ∀ {r s z id R}, K.Decodes prehash signature recoveryId r s z id →
    K.NoncePoint r id R → ∀ key,
      K.secp256k1Recovery prehash signature recoveryId = some (.ok key) ↔
        ∃ Q, K.Solves r s z R Q ∧ (∀ Q', K.Solves r s z R Q' → Q' = Q) ∧ Q ≠ 0 ∧
          key = K.toSec1Bytes Q
  verifies : ∀ {r s z id R Q}, K.Decodes prehash signature recoveryId r s z id →
    K.NoncePoint r id R → K.Solves r s z R Q →
      ∃ x y, K.coordinates ((z * s.1⁻¹) • K.generator + (r.1 * s.1⁻¹) • Q) = some (x, y) ∧
        x % order = r.1.val
  signed : ∀ {r s z id R}, K.Decodes prehash signature recoveryId r s z id →
    K.NoncePoint r id R → ∀ {k d : Scalar}, R = k • K.generator → s.1 = k⁻¹ * (z + r.1 * d) →
      d ≠ 0 →
        K.secp256k1Recovery prehash signature recoveryId =
          some (.ok (K.toSec1Bytes (d • K.generator)))
  refuses : (¬ ∃ r s z id R Q, K.Decodes prehash signature recoveryId r s z id ∧
    K.NoncePoint r id R ∧ K.Solves r s z R Q ∧ Q ≠ 0) →
      ∃ e, K.secp256k1Recovery prehash signature recoveryId = some (.error e)

variable {K} {prehash signature : Bytes} {recoveryId : UInt8} {r s : NonZeroScalar} {z : Scalar}
  {id : K.RecoveryId} {R Q : K.Point}

theorem rBytes_eq_some_iff {x : Nat} :
    K.rBytes r.1 id = some x ↔
      if K.isXReduced id then x = r.1.val + order ∧ r.1.val + order < 2 ^ 256
      else x = r.1.val := by
  unfold rBytes
  split
  · exact checkedAdd_eq_some_iff
  · rw [Option.some.injEq, eq_comm]

/-- The restored bytes decompress to the nonce point, and to nothing else. -/
theorem noncePoint_iff (hK : K.Lawful) :
    K.NoncePoint r id R ↔
      ∃ x, K.rBytes r.1 id = some x ∧ K.decompress x (K.isYOdd id) = some R := by
  simp only [NoncePoint, hK.decompress_iff, rBytes_eq_some_iff]
  constructor
  · rintro ⟨x, y, hcoordinates, hodd, hx⟩
    exact ⟨x, hx, y, hcoordinates, hodd⟩
  · rintro ⟨x, hx, y, hcoordinates, hodd⟩
    exact ⟨x, y, hcoordinates, hodd, hx⟩

/-- The key, or the error, for arguments that decode. -/
theorem recovery_eq (h : K.Decodes prehash signature recoveryId r s z id) :
    K.secp256k1Recovery prehash signature recoveryId =
      match (K.rBytes r.1 id).map fun x => K.decompress x (K.isYOdd id) with
      | none => some (.error .invalidRecoveryId)
      | some none => some (.error .recoveryFailed)
      | some (some R) =>
        match K.verifyingKeyFromAffine (recovered K.generator z r.1 s.1 R) with
        | none => some (.error .recoveryFailed)
        | some vk => some (.ok (K.toSec1Bytes vk)) := by
  obtain ⟨hsig, ⟨fieldBytes, hfield, rfl⟩, hid⟩ := h
  unfold secp256k1Recovery
  simp only [hsig, hfield, hid, Option.isNone_some, Bool.false_eq_true, if_false,
    Option.bind_some]
  cases hx : K.rBytes r.1 id with
  | none => rfl
  | some x =>
    cases hR : K.decompress x (K.isYOdd id) with
    | none => simp [hR]
    | some R => simp [hR, recovered]

/-- With a nonce point, the solution of the equation decides. -/
theorem recovery_found (hK : K.Lawful) (h : K.Decodes prehash signature recoveryId r s z id)
    (hR : K.NoncePoint r id R) :
    K.secp256k1Recovery prehash signature recoveryId =
      match K.verifyingKeyFromAffine (recovered K.generator z r.1 s.1 R) with
      | none => some (.error .recoveryFailed)
      | some vk => some (.ok (K.toSec1Bytes vk)) := by
  obtain ⟨x, hx, hdecompress⟩ := (noncePoint_iff hK).mp hR
  rw [recovery_eq h, hx, Option.map_some, hdecompress]

theorem recovery_ok (hK : K.Lawful) (h : K.Decodes prehash signature recoveryId r s z id)
    (hR : K.NoncePoint r id R) (hQ : K.Solves r s z R Q) (hne : Q ≠ 0) :
    K.secp256k1Recovery prehash signature recoveryId = some (.ok (K.toSec1Bytes Q)) := by
  obtain rfl := (equation_iff r.2).mp hQ
  rw [recovery_found hK h hR, (hK.fromAffine_iff _ _).mpr ⟨rfl, hne⟩]

/-- A key that is returned is the solution for the nonce point. -/
theorem of_recovery_ok (hK : K.Lawful) {key : Bytes}
    (h : K.Decodes prehash signature recoveryId r s z id) (hR : K.NoncePoint r id R)
    (hkey : K.secp256k1Recovery prehash signature recoveryId = some (.ok key)) :
    ∃ Q, K.Solves r s z R Q ∧ Q ≠ 0 ∧ key = K.toSec1Bytes Q := by
  rw [recovery_found hK h hR] at hkey
  cases hvk : K.verifyingKeyFromAffine (recovered K.generator z r.1 s.1 R) with
  | none =>
    rw [hvk] at hkey
    cases hkey
  | some vk =>
    rw [hvk] at hkey
    obtain ⟨rfl, hne⟩ := (hK.fromAffine_iff _ _).mp hvk
    exact ⟨_, equation_recovered r.2, hne, (Except.ok.inj (Option.some.inj hkey)).symm⟩

theorem recovery_no_point (hK : K.Lawful) (h : K.Decodes prehash signature recoveryId r s z id)
    (hR : ¬ ∃ R, K.NoncePoint r id R) :
    ∃ e, K.secp256k1Recovery prehash signature recoveryId = some (.error e) := by
  rw [recovery_eq h]
  cases hx : K.rBytes r.1 id with
  | none => exact ⟨_, rfl⟩
  | some x =>
    cases hdecompress : K.decompress x (K.isYOdd id) with
    | none =>
      rw [Option.map_some, hdecompress]
      exact ⟨_, rfl⟩
    | some R => exact absurd ⟨R, (noncePoint_iff hK).mpr ⟨x, hx, hdecompress⟩⟩ hR

theorem recovery_undecoded
    (h : ¬ ∃ r s z id, K.Decodes prehash signature recoveryId r s z id) :
    ∃ e, K.secp256k1Recovery prehash signature recoveryId = some (.error e) := by
  unfold secp256k1Recovery
  cases hsig : K.signatureFromSlice signature with
  | none => exact ⟨_, rfl⟩
  | some scalars =>
    cases hfield : K.bits2field prehash with
    | none => exact ⟨_, rfl⟩
    | some fieldBytes =>
      cases hid : K.recoveryIdFromByte recoveryId with
      | none => exact ⟨_, rfl⟩
      | some id => exact absurd ⟨_, _, _, id, hsig, ⟨fieldBytes, hfield, rfl⟩, hid⟩ h

/-- Every `unwrap` stands behind its check. -/
theorem recovery_no_panic (hK : K.Lawful) (prehash signature : Bytes) (recoveryId : UInt8) :
    ∃ res, K.secp256k1Recovery prehash signature recoveryId = some res := by
  by_cases hdec : ∃ r s z id, K.Decodes prehash signature recoveryId r s z id
  · obtain ⟨r, s, z, id, hdec⟩ := hdec
    by_cases hR : ∃ R, K.NoncePoint r id R
    · obtain ⟨R, hR⟩ := hR
      rw [recovery_found hK hdec hR]
      cases K.verifyingKeyFromAffine (recovered K.generator z r.1 s.1 R) <;> exact ⟨_, rfl⟩
    · obtain ⟨e, he⟩ := recovery_no_point hK hdec hR
      exact ⟨_, he⟩
  · obtain ⟨e, he⟩ := recovery_undecoded hdec
    exact ⟨_, he⟩

/-- Whatever has no solution other than the identity is refused. -/
theorem recovery_refused (hK : K.Lawful)
    (h : ¬ ∃ r s z id R Q, K.Decodes prehash signature recoveryId r s z id ∧
      K.NoncePoint r id R ∧ K.Solves r s z R Q ∧ Q ≠ 0) :
    ∃ e, K.secp256k1Recovery prehash signature recoveryId = some (.error e) := by
  by_cases hdec : ∃ r s z id, K.Decodes prehash signature recoveryId r s z id
  · obtain ⟨r, s, z, id, hdec⟩ := hdec
    by_cases hR : ∃ R, K.NoncePoint r id R
    · obtain ⟨R, hR⟩ := hR
      obtain ⟨res, hres⟩ := recovery_no_panic hK prehash signature recoveryId
      cases res with
      | error e => exact ⟨e, hres⟩
      | ok key =>
        obtain ⟨Q, hQ, hne, -⟩ := of_recovery_ok hK hdec hR hres
        exact absurd ⟨r, s, z, id, R, Q, hdec, hR, hQ, hne⟩ h
    · exact recovery_no_point hK hdec hR
  · exact recovery_undecoded hdec

/-- The point that verification computes has the `x` coordinate `r`, up to the order. -/
theorem noncePoint_x (hR : K.NoncePoint r id R) :
    ∃ x y, K.coordinates R = some (x, y) ∧ x % order = r.1.val := by
  obtain ⟨x, y, hcoordinates, -, hx⟩ := hR
  refine ⟨x, y, hcoordinates, ?_⟩
  split at hx
  · rw [hx.1, Nat.add_mod_right, Nat.mod_eq_of_lt (ZMod.val_lt r.1)]
  · rw [hx, Nat.mod_eq_of_lt (ZMod.val_lt r.1)]

theorem recovery_law (hK : K.Lawful) (prehash signature : Bytes) (recoveryId : UInt8) :
    K.RecoveryLaw prehash signature recoveryId where
  no_panic := recovery_no_panic hK prehash signature recoveryId
  returns_iff := by
    intro r s z id R hdec hR key
    constructor
    · intro hkey
      obtain ⟨Q, hQ, hne, hsec1⟩ := of_recovery_ok hK hdec hR hkey
      refine ⟨Q, hQ, fun Q' hQ' => ?_, hne, hsec1⟩
      exact ((equation_iff r.2).mp hQ').trans ((equation_iff r.2).mp hQ).symm
    · rintro ⟨Q, hQ, -, hne, rfl⟩
      exact recovery_ok hK hdec hR hQ hne
  verifies := by
    intro r s z id R Q _ hR hQ
    rw [nonce_eq s.2 hQ]
    exact noncePoint_x hR
  signed := by
    intro r s z id R hdec hR k d hk hs hd
    have hk0 : k ≠ 0 := by
      rintro rfl
      obtain ⟨x, y, hcoordinates, -⟩ := noncePoint_x hR
      rw [hk, zero_smul, hK.coordinates_zero] at hcoordinates
      cases hcoordinates
    refine recovery_ok hK hdec hR ?_ (smul_ne_zero hd hK.generator_ne)
    rw [Solves, hk]
    exact equation_of_signed hk0 hs
  refuses := recovery_refused hK

/-! ## The key of the generator -/

def generatorX : Nat := 0x79BE667EF9DCBBAC55A06295CE870B07029BFCDB2DCE28D959F2815B16F81798

def generatorY : Nat := 0x483ADA7726A3C4655DA4FBFC0E1108A8FD17B448A68554199C47D08FFB10D4B8

def fieldOrder : Nat := 0xFFFFFFFFFFFFFFFFFFFFFFFFFFFFFFFFFFFFFFFFFFFFFFFFFFFFFFFEFFFFFC2F

def generatorBytes : Bytes :=
  [0x79, 0xBE, 0x66, 0x7E, 0xF9, 0xDC, 0xBB, 0xAC, 0x55, 0xA0, 0x62, 0x95, 0xCE, 0x87, 0x0B, 0x07,
   0x02, 0x9B, 0xFC, 0xDB, 0x2D, 0xCE, 0x28, 0xD9, 0x59, 0xF2, 0x81, 0x5B, 0x16, 0xF8, 0x17, 0x98]

theorem generatorX_val : (generatorX : Scalar).val = generatorX :=
  ZMod.val_natCast_of_lt (by decide)

theorem generatorX_ne : (generatorX : Scalar) ≠ 0 := by
  intro h
  have hval := generatorX_val
  rw [h, ZMod.val_zero] at hval
  exact absurd hval (by decide)

theorem one_ne_neg_one : (1 : Scalar) ≠ -1 := by
  have hlt : Fact (2 < order) := ⟨by decide⟩
  exact ZMod.neg_one_ne_one.symm

/-- The coordinates of the generator and its inverse. -/
def coordinatesOf (k : Scalar) : Option (Nat × Nat) :=
  if k = 1 then some (generatorX, generatorY)
  else if k = -1 then some (generatorX, fieldOrder - generatorY)
  else none

def pointWith (x : Nat) (odd : Bool) : Option Scalar :=
  if x = generatorX then some (if odd then -1 else 1) else none

theorem coordinatesOf_one : coordinatesOf 1 = some (generatorX, generatorY) := if_pos rfl

theorem coordinatesOf_neg_one :
    coordinatesOf (-1) = some (generatorX, fieldOrder - generatorY) :=
  (if_neg one_ne_neg_one.symm).trans (if_pos rfl)

theorem coordinatesOf_zero : coordinatesOf 0 = none :=
  (if_neg zero_ne_one).trans (if_neg (neg_ne_zero.mpr one_ne_zero).symm)

theorem pointWith_iff (x : Nat) (odd : Bool) (k : Scalar) :
    pointWith x odd = some k ↔
      ∃ y, coordinatesOf k = some (x, y) ∧ decide (y % 2 = 1) = odd := by
  constructor
  · intro h
    unfold pointWith at h
    split at h
    · next hx =>
      subst hx
      obtain rfl := Option.some.inj h
      cases odd with
      | false => exact ⟨_, coordinatesOf_one, by decide⟩
      | true => exact ⟨_, coordinatesOf_neg_one, by decide⟩
    · cases h
  · rintro ⟨y, hcoordinates, rfl⟩
    unfold coordinatesOf at hcoordinates
    split at hcoordinates
    · next hk =>
      cases hcoordinates
      rw [hk]
      rfl
    · split at hcoordinates
      · next hk =>
        cases hcoordinates
        rw [hk]
        rfl
      · cases hcoordinates

def keyOf (k : Scalar) : Option Scalar := if k = 0 then none else some k

theorem keyOf_iff (k k' : Scalar) : keyOf k = some k' ↔ k' = k ∧ k ≠ 0 := by
  unfold keyOf
  split
  · next hk => exact iff_of_false nofun fun h => h.2 hk
  · next hk => rw [Option.some.injEq, and_iff_left hk, eq_comm]

/-- The multiples of the generator, by their factors. They decode a hash of zeros, and the
signature of it that the private key 1 makes with the nonce 1. -/
def multiples : K256 where
  signatureFromSlice bytes :=
    if bytes = generatorBytes ++ generatorBytes then
      some (⟨generatorX, generatorX_ne⟩, ⟨generatorX, generatorX_ne⟩)
    else none
  bits2field bytes := if bytes = List.replicate 32 0 then some 0 else none
  reduceBytes n := n
  RecoveryId := Fin 4
  recoveryIdFromByte byte := if h : byte.toNat < 4 then some ⟨byte.toNat, h⟩ else none
  isXReduced id := decide (2 ≤ id.val)
  isYOdd id := decide (id.val % 2 = 1)
  Point := Scalar
  generator := 1
  coordinates := coordinatesOf
  decompress := pointWith
  verifyingKeyFromAffine := keyOf
  toSec1Bytes k := if k = 1 then 2 :: generatorBytes else []

theorem multiples_lawful : multiples.Lawful where
  decompress_iff := pointWith_iff
  coordinates_zero := coordinatesOf_zero
  fromAffine_iff := keyOf_iff
  generator_ne := one_ne_zero (α := Scalar)

/-- The scalar of both halves of the signature. -/
def generatorScalar : NonZeroScalar := ⟨generatorX, generatorX_ne⟩

theorem multiples_decodes :
    multiples.Decodes (List.replicate 32 0) (generatorBytes ++ generatorBytes) 0 generatorScalar
      generatorScalar 0 (0 : Fin 4) where
  signature := by
    dsimp only [multiples]
    exact if_pos rfl
  prehash := by
    dsimp only [multiples]
    exact ⟨0, if_pos rfl, Nat.cast_zero⟩
  recoveryId := rfl

theorem generator_recovered :
    multiples.RecoveryLaw (List.replicate 32 0) (generatorBytes ++ generatorBytes) 0 ∧
      multiples.secp256k1Recovery (List.replicate 32 0) (generatorBytes ++ generatorBytes) 0 =
        some (.ok (2 :: generatorBytes)) := by
  have hlaw := recovery_law multiples_lawful (List.replicate 32 0)
    (generatorBytes ++ generatorBytes) 0
  have hR : multiples.NoncePoint generatorScalar (0 : Fin 4) (1 : Scalar) :=
    ⟨generatorX, generatorY, coordinatesOf_one, by decide, generatorX_val.symm⟩
  have hsigned := hlaw.signed multiples_decodes hR (k := 1) (d := 1)
    (one_smul Scalar (1 : Scalar)).symm (by simp) one_ne_zero
  refine ⟨hlaw, hsigned.trans ?_⟩
  rw [one_smul]
  dsimp only [multiples]
  rw [if_pos rfl]

end K256

end CkbScriptIpc
