import GolangOrg.GoMap
import GolangOrg.Protoregistry.Names
import GolangOrg.Protoregistry.Files
import GolangOrg.Protoregistry.Trie
import GolangOrg.Protoregistry.Atomic
import GolangOrg.Protoregistry.Spec
import GolangOrg.Protoregistry.Refinement
import GolangOrg.Protoregistry.Find
import GolangOrg.Protoregistry.Range
import GolangOrg.Protoregistry.Errors
import GolangOrg.Cgocall.TypeOK
import GolangOrg.Cgocall.Run
import GolangOrg.Impl.Tag
import GolangOrg.Impl.Reflect
import GolangOrg.Impl.Pointer
import GolangOrg.Impl.Message
import GolangOrg.Impl.MessageType
import GolangOrg.Impl.KnownFields
