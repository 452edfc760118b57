import Mathlib.Data.Fin.VecNotation
import Mathlib.Tactic.FinCases
import Shmily.Foundation.BitFields
import Shmily.Lib.Decimal
import Shmily.Net.Packet

/-! # Addresses as text

An address is printed as four decimal numbers with dots between them. `ipstring2ipuint` reads
such a text. It cuts the text at the dots, and it knows the last number from the last character.
-/

namespace Shmily.Net

open Foundation BitFields Lib

/-- `printf`: what is put on the screen. -/
def printf (format : List Byte) (args : List PrintArg) : Option (List Byte) := vsprintf format args

/-- One turn of the loop of `print_ip_addr`. -/
def printOctet (ipAddr : IpAddr) (i : Fin 4) : Option (List Byte) := do
  let number ← printf [ofChar '%', ofChar 'd'] [.int ((ipAddr i).setWidth 32)]
  let dot ← if 3 ≠ i.val then printf [ofChar '.'] [] else some []
  some (number ++ dot)

/-- `print_ip_addr`. -/
def printIpAddr (ipAddr : IpAddr) : Option (List Byte) :=
  ((List.finRange 4).mapM (printOctet ipAddr)).map List.flatten

/-- The variables of `ipstring2ipuint`; `start` is an index. -/
structure IpScan where
  str : List Byte
  res : BitVec 32
  start : Nat
  times : Int

/-- A number has ended: it is put to its place. -/
def takeNumber (scan : IpScan) (start : Nat) : Option IpScan :=
  (stringAt scan.str scan.start).map fun number =>
    { scan with
      res := scan.res ||| string2uint number <<< (8 * scan.times).toNat
      start := start
      times := scan.times - 1 }

/-- One turn of the loop of `ipstring2ipuint`. -/
def ipTurn (len i : Nat) (scan : IpScan) : Option IpScan :=
  match scan.str[i]? with
  | none => none
  | some char =>
      if char = ofChar '.' then takeNumber { scan with str := scan.str.set i 0 } (i + 1)
      else if i + 1 = len then takeNumber scan scan.start
      else some scan

/-- The loop of `ipstring2ipuint`, with the number of characters left. -/
def ipScan (len : Nat) : Nat → Nat → IpScan → Option IpScan
  | 0, _, scan => some scan
  | left + 1, i, scan =>
      match ipTurn len i scan with
      | none => none
      | some next => if next.times < 0 then some next else ipScan len left (i + 1) next

/-- `ipstring2ipuint`, with the text as it is left. -/
def ipstring2ipuint (str : List Byte) : Option (BitVec 32 × List Byte) := do
  let len ← strlen str
  let scan ← ipScan len len 0 { str := str, res := 0, start := 0, times := 3 }
  some (scan.res, scan.str)

/-- The octets of a number. -/
def octets (ipUint : BitVec 32) : IpAddr :=
  ![((ipUint &&& 0xff000000) >>> 24).setWidth 8, ((ipUint &&& 0x00ff0000) >>> 16).setWidth 8,
    ((ipUint &&& 0x0000ff00) >>> 8).setWidth 8, (ipUint &&& 0x000000ff).setWidth 8]

/-- The address that the handler of `PING` uses. -/
def pingAddr (con1 : BitVec 32) : IpAddr := octets con1

/-- A decimal number with zeros in front. -/
def number (zeros : Nat) (octet : Byte) : List Byte :=
  List.replicate zeros (ofChar '0') ++ printInt (octet.setWidth 32)

/-- The text of an address, with zeros in front of its numbers. -/
def dotted (zeros : Fin 4 → Nat) (ipAddr : IpAddr) : List Byte :=
  [ofChar '.'].intercalate ((List.finRange 4).map fun i => number (zeros i) (ipAddr i))

variable {scan : IpScan} {str front field : List Byte} {len left i : Nat}

/-! ## The octets of a number -/

theorem octets_joinBytes (ipAddr : IpAddr) :
    octets (joinBytes (ipAddr 3) (ipAddr 2) (ipAddr 1) (ipAddr 0)) = ipAddr := by
  obtain ⟨hfourth, hthird, hsecond, hfirst⟩ :=
    bytes_joinBytes (ipAddr 3) (ipAddr 2) (ipAddr 1) (ipAddr 0)
  have hmask : (0xff000000 : BitVec 32) >>> 24 = 0xff ∧ (0x00ff0000 : BitVec 32) >>> 16 = 0xff ∧
      (0x0000ff00 : BitVec 32) >>> 8 = 0xff := by decide
  funext i
  fin_cases i
  · change ((joinBytes _ _ _ _ &&& 0xff000000) >>> 24).setWidth 8 = _
    rw [BitVec.ushiftRight_and_distrib, hmask.1]
    exact hfirst
  · change ((joinBytes _ _ _ _ &&& 0x00ff0000) >>> 16).setWidth 8 = _
    rw [BitVec.ushiftRight_and_distrib, hmask.2.1]
    exact hsecond
  · change ((joinBytes _ _ _ _ &&& 0x0000ff00) >>> 8).setWidth 8 = _
    rw [BitVec.ushiftRight_and_distrib, hmask.2.2]
    exact hthird
  · exact hfourth

/-- `config_iface` takes the same octets. -/
theorem configIface_ipAddr (iface : NetworkInterface) (ipUint : BitVec 32) :
    (iface.configIface ipUint).ipAddr = octets ipUint := by
  have hbyte (pos : Nat) (mask : BitVec 32) (hmask : mask >>> pos = 0xff) :
      ((ipUint &&& mask) >>> pos).setWidth 8 = (ipUint >>> pos).setWidth 8 := by
    apply BitVec.eq_of_getLsbD_eq
    intro i hi
    have hfield : (0xff : BitVec 32) = BitVec.ofNat 32 (2 ^ 8 - 1) := rfl
    rw [BitVec.ushiftRight_and_distrib, hmask, getLsbD_field 8 8 hfield, BitVec.getLsbD_setWidth,
      BitVec.getLsbD_ushiftRight, decide_eq_true hi, decide_eq_true ⟨hi, hi⟩]
  funext i
  fin_cases i
  · exact (hbyte 24 0xff000000 rfl).symm
  · exact (hbyte 16 0x00ff0000 rfl).symm
  · exact (hbyte 8 0x0000ff00 rfl).symm
  · exact (hbyte 0 0x000000ff rfl).symm

/-! ## The text -/

/-- An octet is no negative `int`. -/
theorem octet_lt (octet : Byte) : (octet.setWidth 32).toNat < 2 ^ 31 := by
  have hlt := octet.isLt
  rw [BitVec.toNat_setWidth]
  omega

/-- The characters of a number are digits. -/
theorem isDigit_number {zeros : Nat} {octet : Byte} : ∀ char ∈ number zeros octet, IsDigit char := by
  intro char hmem
  rcases List.mem_append.mp hmem with hzero | hdigit
  · exact ⟨0, by decide, List.eq_of_mem_replicate hzero⟩
  · exact isDigit_printInt (octet_lt octet) char hdigit

theorem number_ne_nil (zeros : Nat) (octet : Byte) : number zeros octet ≠ [] := by
  have hdigits : itoa (octet.setWidth 32) 10 ≠ [] := itoaDigits_ne_nil (by decide)
  rw [number, printInt_of_lt (octet_lt octet)]
  exact List.append_ne_nil_of_right_ne_nil _ hdigits

theorem string2uint_number (zeros : Nat) (octet : Byte) :
    string2uint (number zeros octet) = octet.setWidth 32 := by
  rw [number, string2uint_zeros, printInt_of_lt (octet_lt octet), string2uint_itoa]

theorem printf_number (octet : Byte) :
    printf [ofChar '%', ofChar 'd'] [.int (octet.setWidth 32)] = some (number 0 octet) := by
  have hconversion : isConversion (ofChar 'd') = true := by decide
  rw [printf, vsprintf, if_neg (not_not.mpr rfl)]
  simp [hconversion, convert, vsprintf, number]

theorem printf_dot : printf [ofChar '.'] [] = some [ofChar '.'] := by
  have hplain : ofChar '.' ≠ ofChar '%' := by decide
  simp [printf, vsprintf, hplain]

theorem printOctet_eq (ipAddr : IpAddr) (i : Fin 4) : printOctet ipAddr i =
    some (number 0 (ipAddr i) ++ if 3 ≠ i.val then [ofChar '.'] else []) := by
  rw [printOctet, printf_number, printf_dot]
  split <;> rfl

theorem dotted_eq (zeros : Fin 4 → Nat) (ipAddr : IpAddr) :
    dotted zeros ipAddr = number (zeros 0) (ipAddr 0) ++ ofChar '.' ::
      (number (zeros 1) (ipAddr 1) ++ ofChar '.' ::
        (number (zeros 2) (ipAddr 2) ++ ofChar '.' :: number (zeros 3) (ipAddr 3))) := by
  have hfin : List.finRange 4 = [0, 1, 2, 3] := rfl
  rw [dotted, hfin]
  simp [List.intercalate]

theorem printIpAddr_eq (ipAddr : IpAddr) : printIpAddr ipAddr = some (dotted (fun _ => 0) ipAddr) := by
  have hfin : List.finRange 4 = [0, 1, 2, 3] := rfl
  rw [printIpAddr, hfin, dotted_eq]
  simp [printOctet_eq]

/-- A text that the loop can cut out. -/
structure IsNumber (text : List Byte) : Prop where
  nonempty : text ≠ []
  noDot : ofChar '.' ∉ text
  noZero : 0 ∉ text

theorem isNumber_number (zeros : Nat) (octet : Byte) : IsNumber (number zeros octet) where
  nonempty := number_ne_nil zeros octet
  noDot hmem := (isDigit_number _ hmem).ne (by decide) rfl
  noZero hmem := (isDigit_number _ hmem).ne (by decide) rfl

/-! ## The loop -/

/-- The loop passes over the characters of a number but the last one of the text. -/
theorem ipScan_skip {rest : List Byte} (hstr : scan.str = front ++ (field ++ rest))
    (hdot : ofChar '.' ∉ field) (hlen : front.length + field.length < len) (htimes : 0 ≤ scan.times) :
    ipScan len (field.length + left) front.length scan =
      ipScan len left (front.length + field.length) scan := by
  induction field generalizing front with
  | nil => rw [List.length_nil, Nat.zero_add, Nat.add_zero]
  | cons char field ih =>
      obtain ⟨hchar, hfield⟩ := not_or.mp (mt List.mem_cons.mpr hdot)
      rw [List.length_cons] at hlen
      have hget : scan.str[front.length]? = some char := by simp [hstr]
      have hturn : ipTurn len front.length scan = some scan := by
        rw [ipTurn, hget]
        dsimp only
        rw [if_neg (Ne.symm hchar), if_neg (by omega)]
      have hnext : scan.str = (front ++ [char]) ++ (field ++ rest) := by
        rw [hstr, List.append_assoc, List.singleton_append, List.cons_append]
      have hshift : (front ++ [char]).length = front.length + 1 := by
        rw [List.length_append, List.length_singleton]
      have hrest := ih hnext hfield (by rw [hshift]; omega)
      rw [hshift] at hrest
      rw [List.length_cons, Nat.add_right_comm, ipScan, hturn]
      dsimp only
      rw [if_neg (by omega), hrest]
      exact congrArg (ipScan len left · scan) (by omega)

/-- A number before a dot is cut off and taken, and the next one starts behind the cut. -/
theorem ipScan_dot {front field rest : List Byte} {res : BitVec 32} {times : Int}
    (hfield : IsNumber field) (hlen : front.length + field.length < len) (htimes : 0 < times) :
    ipScan len (field.length + (left + 1)) front.length
        ⟨front ++ (field ++ ofChar '.' :: rest), res, front.length, times⟩ =
      ipScan len left (front ++ (field ++ [0])).length
        ⟨(front ++ (field ++ [0])) ++ rest, res ||| string2uint field <<< (8 * times).toNat,
          (front ++ (field ++ [0])).length, times - 1⟩ := by
  have hend : (front ++ (field ++ [0])).length = front.length + field.length + 1 := by
    rw [List.length_append, List.length_append, List.length_singleton, Nat.add_assoc]
  have hget : (front ++ (field ++ ofChar '.' :: rest))[front.length + field.length]? =
      some (ofChar '.') := by simp
  have hcut : (front ++ (field ++ ofChar '.' :: rest)).set (front.length + field.length) 0 =
      front ++ (field ++ 0 :: rest) := by
    rw [← List.append_assoc, ← List.length_append, List.set_append_right _ _ (Nat.le_refl _),
      Nat.sub_self, List.append_assoc]
    rfl
  have hstr : front ++ (field ++ 0 :: rest) = (front ++ (field ++ [0])) ++ rest := by
    rw [List.append_assoc, List.append_assoc, List.singleton_append]
  rw [ipScan_skip rfl hfield.noDot hlen htimes.le, ipScan, ipTurn]
  dsimp only
  rw [hget]
  dsimp only
  rw [if_pos rfl, hcut, takeNumber, stringAt_append front rest hfield.noZero, Option.map_some]
  dsimp only
  rw [if_neg (by omega), hstr, hend]

/-- The last number is taken at its last character. -/
theorem ipScan_last {front field rest : List Byte} {res : BitVec 32} {times : Int}
    (hfield : IsNumber field) (hlen : front.length + field.length = len) (htimes : 0 ≤ times) :
    ipScan len field.length front.length
        ⟨front ++ (field ++ 0 :: rest), res, front.length, times⟩ =
      some ⟨front ++ (field ++ 0 :: rest), res ||| string2uint field <<< (8 * times).toNat,
        front.length, times - 1⟩ := by
  have htake := stringAt_append front rest hfield.noZero
  have hdot := hfield.noDot
  obtain ⟨init, last, rfl⟩ := (List.eq_nil_or_concat field).resolve_left hfield.nonempty
  rw [List.concat_eq_append] at *
  rw [List.length_append, List.length_singleton] at hlen
  have hlast : last ≠ ofChar '.' := by
    rintro rfl
    exact hdot (List.mem_append_right _ List.mem_cons_self)
  have hinit : ofChar '.' ∉ init := fun hmem => hdot (List.mem_append_left _ hmem)
  have hget : (front ++ ((init ++ [last]) ++ 0 :: rest))[front.length + init.length]? =
      some last := by simp
  have hshape : front ++ ((init ++ [last]) ++ 0 :: rest) = front ++ (init ++ last :: 0 :: rest) := by
    rw [List.append_assoc init, List.singleton_append]
  rw [List.length_append, List.length_singleton, ipScan_skip hshape hinit (by omega) htimes,
    ipScan, ipTurn]
  dsimp only
  rw [hget]
  dsimp only
  rw [if_neg hlast, if_pos (by omega), takeNumber, htake, Option.map_some]
  dsimp only
  rw [ipScan]
  split <;> rfl

/-- Four numbers with dots between them are cut out and put together. -/
theorem ipstring2ipuint_numbers {first second third fourth rest : List Byte}
    (hfirst : IsNumber first) (hsecond : IsNumber second) (hthird : IsNumber third)
    (hfourth : IsNumber fourth) :
    ∃ after, ipstring2ipuint ((first ++ ofChar '.' :: (second ++ ofChar '.' :: (third ++
      ofChar '.' :: fourth))) ++ 0 :: rest) =
      some ((0 : BitVec 32) ||| string2uint first <<< 24 ||| string2uint second <<< 16 |||
          string2uint third <<< 8 ||| string2uint fourth <<< 0, after) := by
  have hdot : 0 ≠ ofChar '.' := by decide
  have hzero : 0 ∉ first ++ ofChar '.' :: (second ++ ofChar '.' :: (third ++ ofChar '.' :: fourth)) :=
    List.not_mem_append hfirst.noZero (List.not_mem_cons_of_ne_of_not_mem hdot
      (List.not_mem_append hsecond.noZero (List.not_mem_cons_of_ne_of_not_mem hdot
        (List.not_mem_append hthird.noZero
          (List.not_mem_cons_of_ne_of_not_mem hdot hfourth.noZero)))))
  have hshape : (first ++ ofChar '.' :: (second ++ ofChar '.' :: (third ++ ofChar '.' :: fourth))) ++
      0 :: rest = [] ++ (first ++ ofChar '.' :: (second ++ ofChar '.' :: (third ++ ofChar '.' ::
        (fourth ++ 0 :: rest)))) := by simp
  have hlength : (first ++ ofChar '.' :: (second ++ ofChar '.' :: (third ++ ofChar '.' ::
      fourth))).length =
        first.length + (second.length + (third.length + (fourth.length + 1) + 1) + 1) := by
    simp only [List.length_append, List.length_cons]
  rw [ipstring2ipuint, strlen_append rest hzero, hlength, hshape]
  generalize hlen : first.length + (second.length + (third.length + (fourth.length + 1) + 1) + 1) =
    len
  have hscan := @ipScan_dot len (second.length + (third.length + (fourth.length + 1) + 1)) [] first
    (second ++ ofChar '.' :: (third ++ ofChar '.' :: (fourth ++ 0 :: rest))) 0 3 hfirst
    (by rw [List.length_nil]; omega) (by decide)
  rw [hlen, ipScan_dot hsecond (by simp; omega) (by decide),
    ipScan_dot hthird (by simp; omega) (by decide),
    ipScan_last hfourth (by simp; omega) (by decide), List.length_nil] at hscan
  exact ⟨_, by rw [Option.bind_eq_bind, Option.bind_some, hscan]; rfl⟩

/-- The printed text of an address is read back, with any zeros in front of its numbers: the
interface and the handler of `PING` get the same octets. -/
theorem ipstring2ipuint_printIpAddr (ipAddr : IpAddr) :
    printIpAddr ipAddr = some (dotted (fun _ => 0) ipAddr) ∧
      ∀ (zeros : Fin 4 → Nat) (rest : List Byte), ∃ ipUint after,
        ipstring2ipuint (dotted zeros ipAddr ++ 0 :: rest) = some (ipUint, after) ∧
          pingAddr ipUint = ipAddr ∧
          ∀ iface : NetworkInterface, (iface.configIface ipUint).ipAddr = ipAddr := by
  refine ⟨printIpAddr_eq ipAddr, fun zeros rest => ?_⟩
  obtain ⟨after, hafter⟩ := @ipstring2ipuint_numbers _ _ _ _ rest
    (isNumber_number (zeros 0) (ipAddr 0)) (isNumber_number (zeros 1) (ipAddr 1))
    (isNumber_number (zeros 2) (ipAddr 2)) (isNumber_number (zeros 3) (ipAddr 3))
  rw [string2uint_number, string2uint_number, string2uint_number, string2uint_number,
    or_eq_joinBytes] at hafter
  rw [dotted_eq]
  refine ⟨_, after, hafter, octets_joinBytes ipAddr, fun iface => ?_⟩
  rw [configIface_ipAddr, octets_joinBytes]

end Shmily.Net
