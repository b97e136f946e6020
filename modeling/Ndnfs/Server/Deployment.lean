import Ndnfs.Fs.Segment
import Ndnfs.Server.ParseName

namespace Ndnfs

/-- The file system and the server run with one prefix, one root path and one key. -/
structure Deployment where
  ndn : NdnCpp
  protobuf : Protobuf
  uri : Bytes
  rootPath : Bytes
  certificateName : Name

namespace Deployment

variable (deployment : Deployment)

def fs : FileSystem :=
  ⟨deployment.ndn, deployment.uri, deployment.rootPath, deployment.certificateName⟩

def server : Server :=
  ⟨deployment.ndn, deployment.protobuf, deployment.uri, deployment.rootPath,
    deployment.certificateName⟩

/-- The prefix is the URI of a name with at least one component. -/
structure Canonical (served : Name) : Prop where
  nonempty : served ≠ []
  uri : deployment.uri = deployment.ndn.toUri served

theorem Canonical.uri_eq {deployment : Deployment} {served : Name}
    (canonical : deployment.Canonical served) :
    deployment.uri = joinSlash (served.map escapeComponent) :=
  canonical.uri.trans (deployment.ndn.toUri_join canonical.nonempty)

end Deployment

namespace Reference

/-- The default configuration with the root directory of the disk as the root path. -/
def deployment : Deployment where
  ndn := ndn
  protobuf := protobuf
  uri := ascii "/ndn/broadcast/ndnfs"
  rootPath := []
  certificateName := certificateName

theorem canonical : deployment.Canonical [ascii "ndn", ascii "broadcast", ascii "ndnfs"] where
  nonempty := by decide
  uri := by decide

end Reference

end Ndnfs
