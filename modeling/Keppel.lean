import Keppel.Swiftplus.Path
import Keppel.Swiftplus.Backend
import Keppel.Swiftplus.Driver
import Keppel.Swiftplus.Writer
import Keppel.Swiftplus.System
import Keppel.Swiftplus.Content
import Keppel.Swiftplus.Tree
import Keppel.Swiftplus.Session
import Keppel.Swiftplus.Move
import Keppel.Swiftplus.Hierarchy
import Keppel.Swiftplus.Locations
import Keppel.Auth.Scope
import Keppel.Api.GetAuth
import Keppel.Swiftplus.Keys
import Keppel.Swiftplus.Termination
import Keppel.Swiftplus.Segments
import Keppel.Swiftplus.Names
import Keppel.Core.AuthDriver
import Keppel.Swiftplus.Drawn
import Keppel.Swiftplus.Setup
