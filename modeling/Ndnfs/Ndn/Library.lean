import Ndnfs.Foundation.MachineInteger
import Ndnfs.Ndn.Name

namespace Ndnfs
open Percent

/-- The MetaInfo fields that both programs can set. -/
structure MetaInfo where
  freshnessPeriod : Option Nat
  finalBlockId : Option Component
  deriving DecidableEq

/-- Both programs use the signature type Sha256WithRsa; the key locator is a certificate name. -/
structure SignatureInfo where
  keyLocator : Option Name
  deriving DecidableEq

/-- A Data signature covers exactly these fields. -/
structure SignedPortion where
  name : Name
  metaInfo : MetaInfo
  content : Bytes
  signatureInfo : SignatureInfo
  deriving DecidableEq

/-- Signing is symbolic: the signature bits stand for the portion they were computed over. -/
structure SignatureBits where
  signed : SignedPortion
  deriving DecidableEq

/-- A new Data packet has no MetaInfo, no content and an empty Sha256WithRsa signature. -/
structure Data where
  name : Name := []
  metaInfo : MetaInfo := ⟨none, none⟩
  content : Bytes := []
  signatureInfo : SignatureInfo := ⟨none⟩
  signatureBits : Option SignatureBits := none
  deriving DecidableEq

def Data.signedPortion (data : Data) : SignedPortion :=
  ⟨data.name, data.metaInfo, data.content, data.signatureInfo⟩

/-- A packet verifies when its bits were computed over its own signed portion. -/
def Data.Verifies (data : Data) : Prop := data.signatureBits = some ⟨data.signedPortion⟩

instance (data : Data) : Decidable data.Verifies := inferInstanceAs (Decidable (_ = _))

/-- The functions of ndn-cpp that the two programs call, with their documented behaviour. -/
structure NdnCpp where
  toEscapedString : Component → Bytes
  fromEscapedString : Bytes → Component
  toUri : Name → Bytes
  nameOfUri : Bytes → Name
  fromNumberWithMarker : Nat → UInt8 → Component
  toNumberWithMarker : Component → UInt8 → Option Nat
  keyLocatorName : Name → Name
  /-- An exception of a callback is caught by the face or ends the program. -/
  catchesExceptions : Bool
  toEscapedString_eq : ∀ component, toEscapedString component = escapeComponent component
  fromEscapedString_escape : ∀ component, ¬ AllPeriods component →
    fromEscapedString (escape component) = component
  toUri_nil : toUri [] = [slash]
  toUri_ne_nil : ∀ name, name ≠ [] → toUri name = joinSlash (name.map toEscapedString)
  /-- The text between a leading // and the next / would be an authority. -/
  nameOfUri_join : ∀ parts : List Bytes, parts.head? ≠ some [] →
    nameOfUri (joinSlash (parts.map escape)) = parts.filterMap uriPart
  nameOfUri_relative : ∀ (part : Bytes) (parts : List Bytes), part ≠ [] →
    nameOfUri (escape part ++ joinSlash (parts.map escape)) = (part :: parts).filterMap uriPart
  nameOfUri_slash : nameOfUri [slash] = []
  fromNumberWithMarker_head : ∀ number marker,
    (fromNumberWithMarker number marker).head? = some marker
  toNumberWithMarker_from : ∀ number marker, number < 2 ^ 64 →
    toNumberWithMarker (fromNumberWithMarker number marker) marker = some number
  toNumberWithMarker_lt : ∀ component marker number,
    toNumberWithMarker component marker = some number → number < 2 ^ 64

namespace NdnCpp

def versionMarker : UInt8 := 0xFD
def segmentMarker : UInt8 := 0x00
def metaMarker : UInt8 := 0xC1

variable (ndn : NdnCpp)

def toVersion (component : Component) : Option Nat := ndn.toNumberWithMarker component versionMarker

def toSegment (component : Component) : Option Nat := ndn.toNumberWithMarker component segmentMarker

/-- The int argument of appendVersion becomes a uint64_t. -/
def versionComponent (version : Int) : Component :=
  ndn.fromNumberWithMarker (MachineInteger.toUInt64 version) versionMarker

/-- The int argument of appendSegment becomes a uint64_t. -/
def segmentComponent (segment : Int) : Component :=
  ndn.fromNumberWithMarker (MachineInteger.toUInt64 segment) segmentMarker

/-- KeyChain::sign fills in the key locator and the bits. -/
def sign (certificateName : Name) (data : Data) : Data :=
  let named := { data with signatureInfo := ⟨some (ndn.keyLocatorName certificateName)⟩ }
  { named with signatureBits := some ⟨named.signedPortion⟩ }

theorem toUri_join {name : Name} (nonempty : name ≠ []) :
    ndn.toUri name = joinSlash (name.map escapeComponent) := by
  rw [ndn.toUri_ne_nil name nonempty]
  exact congrArg joinSlash (List.map_congr_left fun component _ => ndn.toEscapedString_eq component)

theorem toVersion_versionComponent (version : Int) :
    ndn.toVersion (ndn.versionComponent version) = some (MachineInteger.toUInt64 version) :=
  ndn.toNumberWithMarker_from _ _ (MachineInteger.toUInt64_lt version)

theorem toSegment_segmentComponent (segment : Int) :
    ndn.toSegment (ndn.segmentComponent segment) = some (MachineInteger.toUInt64 segment) :=
  ndn.toNumberWithMarker_from _ _ (MachineInteger.toUInt64_lt segment)

/-- Different int values give different components. -/
theorem segmentComponent_inj {first second : Int} (range : MachineInteger.IsInt first)
    (range' : MachineInteger.IsInt second)
    (same : ndn.segmentComponent first = ndn.segmentComponent second) : first = second := by
  have read := congrArg ndn.toSegment same
  rw [toSegment_segmentComponent, toSegment_segmentComponent, Option.some.injEq] at read
  have back := congrArg (fun number : Nat => MachineInteger.toInt number) read
  rwa [MachineInteger.toInt_toUInt64 range, MachineInteger.toInt_toUInt64 range'] at back

end NdnCpp

end Ndnfs
