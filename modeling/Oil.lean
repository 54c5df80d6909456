import Oil.Data.Probing
import Oil.Core.HashTable.Model
import Oil.Core.HashTable.Operations
import Oil.Core.HashTable.Reachable
import Oil.Core.HashTable.Refinement
import Oil.Core.Class.Active
import Oil.Core.Class.Removal
import Oil.Data.Best
import Oil.Data.CString
import Oil.Data.Regex
import Oil.Data.Rows
import Oil.Funcs.Copy8x8.Gs2f
import Oil.Funcs.Copy8x8.Mmx
import Oil.Funcs.IniInit.LoadIni
import Oil.Test.Parameter.Accepted
import Oil.Test.Tester.Bounds
import Oil.Test.Tester.Optimize
import Oil.Core.HashTable.Ownership
import Oil.Core.Registry.Attachments
import Oil.Data.Histogram
import Oil.Data.Scans
import Oil.Data.Spans
import Oil.Data.Strides
import Oil.Funcs.IniInit.Activate
import Oil.Funcs.IniInit.Supported
import Oil.Test.Config.Seed
import Oil.Test.Parameter.Language
import Oil.Test.Parameter.Rendering
import Oil.Test.Profiler.Measured
import Oil.Test.Tester.Accesses
import Oil.Test.Tester.Covered
import Oil.Test.Generators.Registered
import Oil.Test.Generators.Definitions
import Oil.Test.Config.Returns
import Oil.Test.Config.Settings
import Oil.Test.Tester.DefaultChecker
import Oil.Test.Tester.Violation
import Oil.Test.Tester.Counts
import Oil.Test.Tester.Displaced
import Oil.Test.Tester.Sizes
import Oil.Test.Profiler.Precision
import Oil.Test.Config.SeedReads
import Oil.Test.Checker.Doubles
import Oil.Test.Checker.Sampling
import Oil.Funcs.IniInit.Flags
import Oil.Test.Parameter.Lengths
import Oil.Test.Checker.Random
import Oil.Test.Generators.Marshals
import Oil.Test.Generators.CanonicalIds
import Oil.Core.HashTable.Thresholds
import Oil.Core.Class.Vacuum
import Oil.Core.HashTable.Resizing
import Oil.Test.Generators.RegisterImplements
import Oil.Test.Generators.RegisterClasses
import Oil.Test.Tester.Attach
import Oil.Test.Tester.OptimizeAll
import Oil.Funcs.IniInit.LastLine
import Oil.Test.Generators.AttachClasses
import Oil.Funcs.IniInit.FromIni
import Oil.Funcs.AutoInit
import Oil.Test.Generators.Prototypes
import Oil.Test.Tester.FaultCheck
import Oil.Test.Generators.MarshalCalls
import Oil.Test.Generators.SlotsFile
