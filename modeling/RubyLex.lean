import RubyLex.Lexer
import RubyLex.Main
import RubyLex.Proofs.Cutting
import RubyLex.Proofs.Place
import RubyLex.Proofs.Stream
import RubyLex.Proofs.Grammar
import RubyLex.Proofs.LongestMatch
import RubyLex.Proofs.Tiling
import RubyLex.Proofs.Concatenation
import RubyLex.Proofs.RoundTrip
import RubyLex.Proofs.Zipper
import RubyLex.Proofs.Calls
import RubyLex.Proofs.Safety
import RubyLex.Proofs.Files
import RubyLex.Proofs.Overwrite
import RubyLex.Proofs.FailedRun
import RubyLex.Proofs.LogBlind
import RubyLex.Proofs.JsonGrammar
import RubyLex.Proofs.JsonListing
import RubyLex.Proofs.QuotedText
import RubyLex.Proofs.ListingLines
import RubyLex.Proofs.Loading
import RubyLex.Proofs.ListingCommand
import RubyLex.Proofs.TomlLines
import RubyLex.Proofs.Utf8
import RubyLex.Proofs.SavedConfig
import RubyLex.Proofs.Decoding
import RubyLex.Proofs.Conservation
import RubyLex.Proofs.WrittenFile
